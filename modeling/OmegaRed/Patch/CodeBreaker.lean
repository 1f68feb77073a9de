import Mathlib.Data.List.Basic
import Mathlib.Tactic.Ring

/-! The patch lines and the interpreter of the extended ones, which keeps its place between lines
in global variables. -/

namespace OmegaRed.Patch

universe u

/-- The memory accesses of the patches, over any memory. -/
structure MemOps (M : Type u) where
  memRead8 : M → UInt32 → UInt8
  memRead16 : M → UInt32 → UInt16
  memRead32 : M → UInt32 → UInt32
  memRead64 : M → UInt32 → UInt64
  memWrite8 : M → UInt32 → UInt8 → M
  memWrite16 : M → UInt32 → UInt16 → M
  memWrite32 : M → UInt32 → UInt32 → M
  memWrite64 : M → UInt32 → UInt64 → M
  iopMemRead8 : M → UInt32 → UInt8
  iopMemRead16 : M → UInt32 → UInt16
  iopMemRead32 : M → UInt32 → UInt32
  iopMemWrite8 : M → UInt32 → UInt8 → M
  iopMemWrite16 : M → UInt32 → UInt16 → M
  iopMemWrite32 : M → UInt32 → UInt32 → M

inductive PatchDataType
  | noType | byteT | shortT | wordT | doubleT | extendedT
  deriving DecidableEq

inductive PatchCpuType
  | noCpu | cpuEE | cpuIop
  deriving DecidableEq

structure IniPatch where
  enabled : Int
  type : PatchDataType
  cpu : PatchCpuType
  placeToPatch : Int
  addr : UInt32
  data : UInt64

/-- `(u32)p->data` -/
def IniPatch.data32 (p : IniPatch) : UInt32 := p.data.toUInt32

/-- The global variables. -/
structure Globals where
  skipCount : UInt32
  iterationCount : UInt32
  iterationIncrement : UInt32
  prevCheatType : UInt32
  prevCheatAddr : UInt32
  lastType : UInt32
  deriving DecidableEq

def Globals.init : Globals := ⟨0, 0, 0, 0, 0, 0⟩

variable {M : Type u} (io : MemOps M)

/-- The test that the code makes of a pointer it has read. -/
def pointerBits (mem : UInt32) : UInt32 := (mem &&& 0x0fffffff) &&& 0x3ffffffc

def writeCheat (s : Globals) (m : M) : M :=
  if s.lastType = 0x0 then io.memWrite8 m s.prevCheatAddr (s.iterationIncrement &&& 0xff).toUInt8
  else if s.lastType = 0x1 then
    io.memWrite16 m s.prevCheatAddr (s.iterationIncrement &&& 0xffff).toUInt16
  else if s.lastType = 0x2 then io.memWrite32 m s.prevCheatAddr s.iterationIncrement
  else m

/-- `for (u32 i = 0; i < count; i++)` -/
def forCount (count : UInt32) (body : M → UInt32 → M) (m : M) : M :=
  (List.range count.toNat).foldl (fun m i => body m (.ofNat i)) m

/-- The second line of a slide write. -/
def slide (addr count step value inc : UInt32) : M → M :=
  forCount count fun m i => io.memWrite32 m (addr + i * step) (value + inc * i)

/-- The second line of a copy. -/
def copy (src dst count : UInt32) : M → M :=
  forCount count fun m i => io.memWrite8 m ((dst + i) &&& 0x0fffffff) (io.memRead8 m (src + i))

/-- `case 0x6000` when the value of the first line is 0. -/
def pointerLineZero (p : IniPatch) (s : Globals) (m : M) : Globals × M :=
  let mem := io.memRead32 m s.prevCheatAddr
  let (lastType, prevCheatAddr) : UInt32 × UInt32 :=
    if p.addr < 0x100 then (0x0, mem + p.addr)
    else if p.addr < 0x1000 then (0x1, mem + p.addr * 2)
    else (0x2, mem + p.addr * 4)
  let s := { s with lastType := lastType, prevCheatAddr := prevCheatAddr, prevCheatType := 0 }
  if pointerBits mem ≠ 0 then
    if lastType = 0x0 then (s, io.memWrite8 m prevCheatAddr (p.data.toUInt8 &&& 0xff))
    else if lastType = 0x1 then (s, io.memWrite16 m prevCheatAddr (p.data.toUInt16 &&& 0xffff))
    else (s, io.memWrite32 m prevCheatAddr p.data32)
  else (s, m)

/-- `case 0x6000` -/
def pointerLine (p : IniPatch) (s : Globals) (m : M) : Globals × M :=
  if s.iterationIncrement = 0x0 then pointerLineZero io p s m
  else
    let count := if p.addr &&& 0x0000ffff = 0 then 1 else p.addr &&& 0x0000ffff
    let lastType := (p.addr &&& 0x000f0000) >>> 16
    let mem := io.memRead32 m s.prevCheatAddr
    let s := { s with
      lastType := lastType, prevCheatAddr := mem + p.data32, iterationCount := count - 1 }
    if s.iterationCount = 0 then
      let s := { s with prevCheatType := 0 }
      (s, if pointerBits mem ≠ 0 then writeCheat io s m else m)
    else if pointerBits mem ≠ 0 then ({ s with prevCheatType := 0 }, m)
    else ({ s with prevCheatType := 0x6001 }, m)

/-- `case 0x6001` -/
def pointerNextLine (p : IniPatch) (s : Globals) (m : M) : Globals × M :=
  let mem := io.memRead32 m (s.prevCheatAddr &&& 0x0fffffff)
  let s := { s with
    prevCheatAddr := mem + p.addr, iterationCount := s.iterationCount - 1 }
  if s.iterationCount = 0 then
    let s := { s with prevCheatType := 0 }
    (s, if pointerBits mem ≠ 0 then writeCheat io s m else m)
  else
    let mem := io.memRead32 m s.prevCheatAddr
    let s := { s with
      prevCheatAddr := mem + p.data32, iterationCount := s.iterationCount - 1 }
    if s.iterationCount = 0 then
      let s := { s with prevCheatType := 0 }
      (s, if pointerBits mem ≠ 0 then writeCheat io s m else m)
    else (s, m)

/-- What a condition does: it may skip lines, and it is a whole code. -/
def Globals.skip (s : Globals) (fails : Prop) [Decidable fails] (lines : UInt32) : Globals :=
  { s with skipCount := if fails then lines else s.skipCount, prevCheatType := 0 }

/-- `p->addr < 0xE0000000`, after the opcodes below 8. -/
def conditionD (p : IniPatch) (s : Globals) (m : M) : Globals :=
  let mem := (io.memRead16 m (p.addr &&& 0x0fffffff)).toUInt32
  let value := 0x0000ffff &&& p.data32
  if p.data32 &&& 0xffff0000 = 0x00000000 then s.skip (mem ≠ value) 1
  else if p.data32 &&& 0xffff0000 = 0x00100000 then s.skip (mem = value) 1
  else if p.data32 &&& 0xffff0000 = 0x00200000 then s.skip (mem ≥ value) 1
  else if p.data32 &&& 0xffff0000 = 0x00300000 then s.skip (mem ≤ value) 1
  else s

/-- One comparison of an E code, of 16 bits or of 8. -/
def conditionZ (p : IniPatch) (fails : UInt32 → UInt32 → Bool) (s : Globals) (m : M) : Globals :=
  let z := (p.addr &&& 0x0f000000) / 0x01000000
  let lines := (p.addr &&& 0x00ff0000) / 0x10000
  if z = 0 then
    s.skip (fails (io.memRead16 m (p.data32 &&& 0x0fffffff)).toUInt32 (0x0000ffff &&& p.addr)) lines
  else if z = 1 then
    s.skip (fails (io.memRead8 m (p.data32 &&& 0x0fffffff)).toUInt32 (0x000000ff &&& p.addr)) lines
  else s

/-- `p->addr < 0xF0000000` -/
def conditionE (p : IniPatch) (s : Globals) (m : M) : Globals :=
  if p.data32 &&& 0xf0000000 = 0x00000000 then conditionZ io p (fun mem v => mem ≠ v) s m
  else if p.data32 &&& 0xf0000000 = 0x10000000 then conditionZ io p (fun mem v => mem = v) s m
  else if p.data32 &&& 0xf0000000 = 0x20000000 then conditionZ io p (fun mem v => mem ≥ v) s m
  else if p.data32 &&& 0xf0000000 = 0x30000000 then conditionZ io p (fun mem v => mem ≤ v) s m
  else s

/-- `(p->addr & 0xF0000000) == 0x70000000` -/
def bitOperation (p : IniPatch) (m : M) : M :=
  let a := p.addr &&& 0x0fffffff
  let kind := p.data &&& 0x00f00000
  let v8 := (p.data &&& 0x000000ff).toUInt8
  let v16 := (p.data &&& 0x0000ffff).toUInt16
  if kind = 0x00000000 then io.memWrite8 m a (io.memRead8 m a ||| v8)
  else if kind = 0x00100000 then io.memWrite16 m a (io.memRead16 m a ||| v16)
  else if kind = 0x00200000 then io.memWrite8 m a (io.memRead8 m a &&& v8)
  else if kind = 0x00300000 then io.memWrite16 m a (io.memRead16 m a &&& v16)
  else if kind = 0x00400000 then io.memWrite8 m a (io.memRead8 m a ^^^ v8)
  else if kind = 0x00500000 then io.memWrite16 m a (io.memRead16 m a ^^^ v16)
  else m

/-- The `default` case: a line that begins a code. -/
def firstLine (p : IniPatch) (s : Globals) (m : M) : Globals × M :=
  let clear := { s with prevCheatType := 0 }
  let op := p.addr &&& 0xf0000000
  let op3 := p.addr &&& 0xffff0000
  let v8 := (p.addr &&& 0x000000ff).toUInt8
  let v16 := (p.addr &&& 0x0000ffff).toUInt16
  if op = 0x00000000 then (clear, io.memWrite8 m (p.addr &&& 0x0fffffff) (p.data.toUInt8 &&& 0xff))
  else if op = 0x10000000 then
    (clear, io.memWrite16 m (p.addr &&& 0x0fffffff) (p.data.toUInt16 &&& 0xffff))
  else if op = 0x20000000 then (clear, io.memWrite32 m (p.addr &&& 0x0fffffff) p.data32)
  else if op3 = 0x30000000 then (clear, io.memWrite8 m p.data32 (io.memRead8 m p.data32 + v8))
  else if op3 = 0x30100000 then (clear, io.memWrite8 m p.data32 (io.memRead8 m p.data32 - v8))
  else if op3 = 0x30200000 then (clear, io.memWrite16 m p.data32 (io.memRead16 m p.data32 + v16))
  else if op3 = 0x30300000 then (clear, io.memWrite16 m p.data32 (io.memRead16 m p.data32 - v16))
  else if op3 = 0x30400000 then ({ s with prevCheatType := 0x3040, prevCheatAddr := p.data32 }, m)
  else if op3 = 0x30500000 then ({ s with prevCheatType := 0x3050, prevCheatAddr := p.data32 }, m)
  else if op = 0x40000000 then
    ({ s with
      iterationCount := (p.data32 &&& 0xffff0000) / 0x10000
      iterationIncrement := (p.data32 &&& 0x0000ffff) * 4
      prevCheatAddr := p.addr &&& 0x0fffffff
      prevCheatType := 0x4000 }, m)
  else if op = 0x50000000 then
    ({ s with
      prevCheatAddr := p.addr &&& 0x0fffffff
      iterationCount := p.data32
      prevCheatType := 0x5000 }, m)
  else if op = 0x60000000 then
    ({ s with
      prevCheatAddr := p.addr &&& 0x0fffffff
      iterationIncrement := p.data32
      iterationCount := 0
      prevCheatType := 0x6000 }, m)
  else if op = 0x70000000 then (s, bitOperation io p m)
  else if p.addr < 0xe0000000 then (conditionD io p s m, m)
  else if p.addr < 0xf0000000 then (conditionE io p s m, m)
  else (s, m)

def handleExtendedT (p : IniPatch) (s : Globals) (m : M) : Globals × M :=
  let clear := { s with prevCheatType := 0 }
  if s.skipCount > 0 then ({ s with skipCount := s.skipCount - 1 }, m)
  else if s.prevCheatType = 0x3040 then
    (clear, io.memWrite32 m s.prevCheatAddr (io.memRead32 m s.prevCheatAddr + p.addr))
  else if s.prevCheatType = 0x3050 then
    (clear, io.memWrite32 m s.prevCheatAddr (io.memRead32 m s.prevCheatAddr - p.addr))
  else if s.prevCheatType = 0x4000 then
    (clear, slide io s.prevCheatAddr s.iterationCount s.iterationIncrement p.addr p.data32 m)
  else if s.prevCheatType = 0x5000 then
    (clear, copy io s.prevCheatAddr p.addr s.iterationCount m)
  else if s.prevCheatType = 0x6000 then pointerLine io p s m
  else if s.prevCheatType = 0x6001 then pointerNextLine io p s m
  else firstLine io p s m

/-- A write that is left out when the memory holds the value. -/
def writeIfOther {V : Type} [DecidableEq V] (read : M → UInt32 → V) (write : M → UInt32 → V → M)
    (addr : UInt32) (v : V) (m : M) : M :=
  if read m addr ≠ v then write m addr v else m

def applyPatch (p : IniPatch) (s : Globals) (m : M) : Globals × M :=
  if p.enabled = 0 then (s, m)
  else match p.cpu, p.type with
    | .cpuEE, .byteT => (s, writeIfOther io.memRead8 io.memWrite8 p.addr p.data.toUInt8 m)
    | .cpuEE, .shortT => (s, writeIfOther io.memRead16 io.memWrite16 p.addr p.data.toUInt16 m)
    | .cpuEE, .wordT => (s, writeIfOther io.memRead32 io.memWrite32 p.addr p.data32 m)
    | .cpuEE, .doubleT => (s, writeIfOther io.memRead64 io.memWrite64 p.addr p.data m)
    | .cpuEE, .extendedT => handleExtendedT io p s m
    | .cpuIop, .byteT => (s, writeIfOther io.iopMemRead8 io.iopMemWrite8 p.addr p.data.toUInt8 m)
    | .cpuIop, .shortT =>
      (s, writeIfOther io.iopMemRead16 io.iopMemWrite16 p.addr p.data.toUInt16 m)
    | .cpuIop, .wordT => (s, writeIfOther io.iopMemRead32 io.iopMemWrite32 p.addr p.data32 m)
    | _, _ => (s, m)

/-- One pass over the loaded patches. -/
def applyLoadedPatches (place : Int) (patches : List IniPatch) (s : Globals) (m : M) :
    Globals × M :=
  patches.foldl (fun (s, m) p => if p.placeToPatch = place then applyPatch io p s m else (s, m))
    (s, m)

end OmegaRed.Patch

/-! What the extended lines mean: codes of one, two or more lines, each with one effect. -/

namespace OmegaRed.Patch

universe u

inductive Width
  | byte | half | word
  deriving DecidableEq

inductive Op
  | add | sub | or | and | xor
  deriving DecidableEq

inductive Cmp
  | eq | ne | lt | gt
  deriving DecidableEq

def Op.apply : Op → UInt32 → UInt32 → UInt32
  | .add, x, y => x + y
  | .sub, x, y => x - y
  | .or, x, y => x ||| y
  | .and, x, y => x &&& y
  | .xor, x, y => x ^^^ y

def Cmp.Holds : Cmp → UInt32 → UInt32 → Prop
  | .eq, x, y => x = y
  | .ne, x, y => x ≠ y
  | .lt, x, y => x < y
  | .gt, x, y => x > y

instance (c : Cmp) (x y : UInt32) : Decidable (c.Holds x y) :=
  match c with
  | .eq => inferInstanceAs (Decidable (x = y))
  | .ne => inferInstanceAs (Decidable (x ≠ y))
  | .lt => inferInstanceAs (Decidable (x < y))
  | .gt => inferInstanceAs (Decidable (x > y))

/-- What a line begins; from `modifyWord` on, the code goes on behind the line. -/
inductive Code
  | write (w : Width) (addr value : UInt32)
  | modify (w : Width) (op : Op) (addr value : UInt32)
  | cond (w : Width) (c : Cmp) (addr value : UInt32) (lines : Nat)
  | none
  | modifyWord (op : Op) (addr : UInt32)
  | slide (addr count step : UInt32)
  | copy (src count : UInt32)
  | pointer (addr value : UInt32)

def Cmp.ofKind : Nat → Option Cmp
  | 0 => some .eq
  | 1 => some .ne
  | 2 => some .lt
  | 3 => some .gt
  | _ => Option.none

namespace IniPatch

variable (p : IniPatch)

/-- `0aaaaaaa` -/
def address (x : UInt32) : UInt32 := x &&& 0x0fffffff

def nibble : Nat := p.addr.toNat / 2 ^ 28

/-- `300000vv 0aaaaaaa`, `3020vvvv 0aaaaaaa`, `30400000 0aaaaaaa` and the decrements. -/
def decode3 : Code :=
  match p.addr.toNat / 2 ^ 16 with
  | 0x3000 => .modify .byte .add p.data32 (p.addr &&& 0xff)
  | 0x3010 => .modify .byte .sub p.data32 (p.addr &&& 0xff)
  | 0x3020 => .modify .half .add p.data32 (p.addr &&& 0xffff)
  | 0x3030 => .modify .half .sub p.data32 (p.addr &&& 0xffff)
  | 0x3040 => .modifyWord .add p.data32
  | 0x3050 => .modifyWord .sub p.data32
  | _ => .none

/-- `7aaaaaaa 000000vv`, `7aaaaaaa 0010vvvv` and so on. -/
def decode7 : Code :=
  match p.data.toNat / 2 ^ 20 % 16 with
  | 0 => .modify .byte .or (address p.addr) (p.data32 &&& 0xff)
  | 1 => .modify .half .or (address p.addr) (p.data32 &&& 0xffff)
  | 2 => .modify .byte .and (address p.addr) (p.data32 &&& 0xff)
  | 3 => .modify .half .and (address p.addr) (p.data32 &&& 0xffff)
  | 4 => .modify .byte .xor (address p.addr) (p.data32 &&& 0xff)
  | 5 => .modify .half .xor (address p.addr) (p.data32 &&& 0xffff)
  | _ => .none

/-- `Daaaaaaa 00z0dddd` -/
def decodeD : Code :=
  let z := p.data32.toNat / 2 ^ 16
  match if z % 16 = 0 then Cmp.ofKind (z / 16) else .none with
  | some c => .cond .half c (address p.addr) (p.data32 &&& 0xffff) 1
  | .none => .none

/-- `E0yyvvvv zaaaaaaa` and `E1yy00vv zaaaaaaa` -/
def decodeE : Code :=
  let lines := p.addr.toNat / 2 ^ 16 % 256
  match Cmp.ofKind (p.data32.toNat / 2 ^ 28), p.addr.toNat / 2 ^ 24 % 16 with
  | some c, 0 => .cond .half c (address p.data32) (p.addr &&& 0xffff) lines
  | some c, 1 => .cond .byte c (address p.data32) (p.addr &&& 0xff) lines
  | _, _ => .none

def decode : Code :=
  match p.nibble with
  | 0 => .write .byte (address p.addr) p.data32
  | 1 => .write .half (address p.addr) p.data32
  | 2 => .write .word (address p.addr) p.data32
  | 3 => p.decode3
  | 4 => .slide (address p.addr) (p.data32 >>> 16) ((p.data32 &&& 0xffff) * 4)
  | 5 => .copy (address p.addr) p.data32
  | 6 => .pointer (address p.addr) p.data32
  | 7 => p.decode7
  | 0xd => p.decodeD
  | 0xe => p.decodeE
  | _ => .none

end IniPatch

variable {M : Type u} (io : MemOps M)

def MemOps.read (w : Width) (m : M) (addr : UInt32) : UInt32 :=
  match w with
  | .byte => (io.memRead8 m addr).toUInt32
  | .half => (io.memRead16 m addr).toUInt32
  | .word => io.memRead32 m addr

def MemOps.write (w : Width) (m : M) (addr value : UInt32) : M :=
  match w with
  | .byte => io.memWrite8 m addr value.toUInt8
  | .half => io.memWrite16 m addr value.toUInt16
  | .word => io.memWrite32 m addr value

/-- From address to address; `none` when a pointer on the way is null. -/
def follow (m : M) : UInt32 → List UInt32 → Option UInt32
  | addr, [] => some addr
  | addr, off :: offs =>
    let p := io.memRead32 m addr
    if pointerBits p = 0 then none else follow m (p + off) offs

def Width.ofKind : Nat → Option Width
  | 0 => some .byte
  | 1 => some .half
  | 2 => some .word
  | _ => none

/-- `000Xnnnn iiiiiiii` and the offsets behind it. -/
def pointerWrite (addr value : UInt32) (q : IniPatch) (levels : Nat) (more : List IniPatch)
    (m : M) : M :=
  let offsets := q.data32 :: more.flatMap fun r => [r.addr, r.data32]
  match follow io m addr (offsets.take levels), Width.ofKind (q.addr.toNat / 2 ^ 16 % 16) with
  | some a, some w => io.write w m a value
  | _, _ => m

/-- The effect of one pass. The first argument is how many lines are still skipped; a code whose
lines end early has no effect. -/
def reference : Nat → List IniPatch → M → M
  | _, [], m => m
  | skip + 1, _ :: l, m => reference skip l m
  | 0, p :: l, m =>
    match p.decode with
    | .write w a v => reference 0 l (io.write w m a v)
    | .modify w op a v => reference 0 l (io.write w m a (op.apply (io.read w m a) v))
    | .cond w c a v lines => reference (if c.Holds (io.read w m a) v then 0 else lines) l m
    | .none => reference 0 l m
    | .modifyWord op a =>
      match l with
      | [] => m
      | q :: l => reference 0 l (io.write .word m a (op.apply (io.read .word m a) q.addr))
    | .slide a n step =>
      match l with
      | [] => m
      | q :: l => reference 0 l (slide io a n step q.addr q.data32 m)
    | .copy a n =>
      match l with
      | [] => m
      | q :: l => reference 0 l (copy io a q.addr n m)
    | .pointer a v =>
      match l with
      | [] => m
      | q :: l =>
        let levels := max 1 (q.addr.toNat % 2 ^ 16)
        let more := levels / 2
        if l.length < more then m
        else reference more l (pointerWrite io a v q levels (l.take more) m)

end OmegaRed.Patch
