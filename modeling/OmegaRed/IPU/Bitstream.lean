import Mathlib.Data.List.Range
import Mathlib.Logic.Function.Basic
import Mathlib.Data.Int.Basic
import Mathlib.Data.Nat.Basic

/-! The bit reader of the IPU: a window of two quadwords that is filled from the input FIFO. -/

namespace OmegaRed.IPU

abbrev U128 := BitVec 128

/-- `IPU_Fifo_Input`; `data` has a quadword for each position it begins at. -/
structure Fifo where
  data : Nat → U128
  readpos : Nat
  writepos : Nat

/-- `g_BP` and `ipu_fifo.in`. -/
structure State where
  internalQwc : Nat → U128
  BP : Nat
  IFC : Nat
  FP : Nat
  fifo : Fifo

namespace State

/-- `ipuBCLR` -/
def bclr (val : Nat) : State := ⟨fun _ => 0, val &&& 0x7f, 0, 0, ⟨fun _ => 0, 0, 0⟩⟩

/-- One round of the loop of `IPU_Fifo_Input::write`. -/
def push (s : State) (q : U128) : State :=
  { s with fifo := { s.fifo with
    data := Function.update s.fifo.data s.fifo.writepos q
    writepos := (s.fifo.writepos + 4) &&& 31 } }

/-- `IPU_Fifo_Input::write`, with the number of quadwords it takes. -/
def write (s : State) (pMem : List U128) : State × Nat :=
  let firsttrans := min pMem.length (8 - s.IFC)
  ((pMem.take firsttrans).foldl push { s with IFC := s.IFC + firsttrans }, firsttrans)

def pop (s : State) : State :=
  { s with fifo := { s.fifo with readpos := (s.fifo.readpos + 4) &&& 31 }, IFC := s.IFC - 1 }

/-- `IPU_Fifo_Input::read`, without the request it makes to the DMA. -/
def read (s : State) : Option (U128 × State) :=
  if s.IFC = 0 then none else some (s.fifo.data s.fifo.readpos, s.pop)

/-- The loop of `FillBuffer`: the second quadword is reached after `left` rounds. -/
def fillLoop (bits : Nat) : Nat → State → State × Bool
  | 0, s => (s, true)
  | left + 1, s =>
    match s.read with
    | none => (s, s.FP ≠ 0 && s.BP + bits ≤ 128)
    | some (q, s) =>
      fillLoop bits left
        { s with internalQwc := Function.update s.internalQwc s.FP q, FP := s.FP + 1 }

def fillBuffer (s : State) (bits : Nat) : State × Bool := fillLoop bits (2 - s.FP) s

def advance (s : State) (bits : Nat) : State :=
  let s := { s with BP := s.BP + bits }
  if s.BP ≥ 128 then
    let s := { s with BP := s.BP - 128 }
    if s.FP = 2 then
      { s with internalQwc := Function.update s.internalQwc 0 (s.internalQwc 1), FP := 1 }
    else
      let s := if s.FP = 0 then
          match s.read with
          | none => s
          | some (q, s) => { s with internalQwc := Function.update s.internalQwc 0 q }
        else s
      { s with FP := 0 }
  else s

def align (s : State) : State := advance { s with BP := (s.BP + 7) / 8 * 8 } 0

/-- The 32 bytes of `internal_qwc`, little-endian. -/
def window (s : State) : BitVec 256 := s.internalQwc 1 ++ s.internalQwc 0

/-- The `w` bits at byte `readpos` of `internal_qwc`. -/
def load (w : Nat) (s : State) (readpos : Nat) : BitVec w := (s.window >>> (8 * readpos)).setWidth w

/-- `0xff >> shift` in each of the lower `k` bytes. -/
def byteMask (w shift : Nat) : Nat → BitVec w
  | 0 => 0
  | k + 1 => byteMask w shift k ||| (((0xff : BitVec w) >>> shift) <<< (8 * k))

/-- What `getBits8` to `getBits64` store at `address`, for `k` bytes; the shorter ones calculate
with more bits and drop them. -/
def bitsAt (k : Nat) (s : State) : BitVec (8 * k) :=
  let readpos := s.BP / 8
  let shift := s.BP % 8
  if shift ≠ 0 then
    let mask := byteMask (8 * k) shift k
    ((~~~mask &&& s.load (8 * k) (readpos + 1)) >>> (8 - shift)) |||
      ((mask &&& s.load (8 * k) readpos) <<< shift)
  else s.load (8 * k) readpos

/-- `getBits8` to `getBits64` for `k` bytes. -/
def getBits (k : Nat) (s : State) (adv : Bool) : State × Option (BitVec (8 * k)) :=
  match s.fillBuffer (8 * k) with
  | (s, false) => (s, none)
  | (s, true) =>
    let value := s.bitsAt k
    (if adv then s.advance (8 * k) else s, some value)

def bigEndian (x : BitVec 32) : BitVec 32 :=
  x.extractLsb' 0 8 ++ x.extractLsb' 8 8 ++ x.extractLsb' 16 8 ++ x.extractLsb' 24 8

/-- `UBITS` -/
def ubits (s : State) (bits : Nat) : BitVec 32 :=
  (bigEndian (s.load 32 (s.BP / 8)) <<< (s.BP % 8)) >>> (32 - bits)

/-- `SBITS` -/
def sbits (s : State) (bits : Nat) : BitVec 32 :=
  (bigEndian (s.load 32 (s.BP / 8)) <<< (s.BP % 8)).sshiftRight (32 - bits)

end State

/-- The reads of different lengths. -/
inductive Size
  | bits8
  | bits16
  | bits32
  | bits64

def Size.bytes : Size → Nat
  | bits8 => 1
  | bits16 => 2
  | bits32 => 4
  | bits64 => 8

/-- What reaches the bit reader: quadwords from the DMA, and what a command asks of it. `fill` is
`FillBuffer` alone, as in `GETWORD` and `bitstream_init`. -/
inductive Op
  | write (pMem : List U128)
  | fill (bits : Fin 128)
  | getBits (size : Size) (adv : Bool)
  | ubits (bits : Fin 25)
  | sbits (bits : Fin 25)
  | advance (bits : Fin 129)
  | align

inductive Result
  | accepted (n : Nat)
  | flag (b : Bool)
  | failed
  | bytes (l : List (BitVec 8))
  | word (x : BitVec 32)
  | done

/-- The bytes of a little-endian value. -/
def bytesOf {k : Nat} (x : BitVec (8 * k)) : List (BitVec 8) :=
  (List.range k).map fun j => x.extractLsb' (8 * j) 8

/-- A bit count of a `Fin` counts from 1. -/
def State.step (s : State) : Op → State × Result
  | .write pMem => ((s.write pMem).1, .accepted (s.write pMem).2)
  | .fill bits => ((s.fillBuffer (bits + 1)).1, .flag (s.fillBuffer (bits + 1)).2)
  | .getBits size adv =>
    match s.getBits size.bytes adv with
    | (s, none) => (s, .failed)
    | (s, some value) => (s, .bytes (bytesOf value))
  | .ubits bits => (s, .word (s.ubits (bits + 1)))
  | .sbits bits => (s, .word (s.sbits (bits + 1)))
  | .advance bits => (s.advance bits, .done)
  | .align => (s.align, .done)

end OmegaRed.IPU

/-! The tables of the DCT coefficient codes. -/

namespace OmegaRed.IPU

/-- `run` 64 is the end of a block, 65 an escape. -/
structure DCTtab where
  run : Nat
  level : Nat
  len : Nat
  deriving DecidableEq

namespace DCT

/-- Codes `0100…` to `1xxx…` of table B-14, for the first coefficient. -/
def first : List DCTtab :=
  [⟨0, 2, 4⟩, ⟨2, 1, 4⟩, ⟨1, 1, 3⟩, ⟨1, 1, 3⟩, ⟨0, 1, 1⟩, ⟨0, 1, 1⟩, ⟨0, 1, 1⟩,
    ⟨0, 1, 1⟩, ⟨0, 1, 1⟩, ⟨0, 1, 1⟩, ⟨0, 1, 1⟩, ⟨0, 1, 1⟩]

@[simp] theorem length_first : first.length = 12 := rfl

/-- The same for the other coefficients. -/
def next : List DCTtab :=
  [⟨0, 2, 4⟩, ⟨2, 1, 4⟩, ⟨1, 1, 3⟩, ⟨1, 1, 3⟩, ⟨64, 0, 2⟩, ⟨64, 0, 2⟩, ⟨64, 0, 2⟩,
    ⟨64, 0, 2⟩, ⟨0, 1, 2⟩, ⟨0, 1, 2⟩, ⟨0, 1, 2⟩, ⟨0, 1, 2⟩]

@[simp] theorem length_next : next.length = 12 := rfl

/-- Codes `000001xx` to `00111xxx` of table B-14. -/
def tab0 : List DCTtab :=
  [⟨65, 0, 6⟩, ⟨65, 0, 6⟩, ⟨65, 0, 6⟩, ⟨65, 0, 6⟩, ⟨2, 2, 7⟩, ⟨2, 2, 7⟩, ⟨9, 1, 7⟩,
    ⟨9, 1, 7⟩, ⟨0, 4, 7⟩, ⟨0, 4, 7⟩, ⟨8, 1, 7⟩, ⟨8, 1, 7⟩, ⟨7, 1, 6⟩, ⟨7, 1, 6⟩,
    ⟨7, 1, 6⟩, ⟨7, 1, 6⟩, ⟨6, 1, 6⟩, ⟨6, 1, 6⟩, ⟨6, 1, 6⟩, ⟨6, 1, 6⟩, ⟨1, 2, 6⟩,
    ⟨1, 2, 6⟩, ⟨1, 2, 6⟩, ⟨1, 2, 6⟩, ⟨5, 1, 6⟩, ⟨5, 1, 6⟩, ⟨5, 1, 6⟩, ⟨5, 1, 6⟩,
    ⟨13, 1, 8⟩, ⟨0, 6, 8⟩, ⟨12, 1, 8⟩, ⟨11, 1, 8⟩, ⟨3, 2, 8⟩, ⟨1, 3, 8⟩, ⟨0, 5, 8⟩,
    ⟨10, 1, 8⟩, ⟨0, 3, 5⟩, ⟨0, 3, 5⟩, ⟨0, 3, 5⟩, ⟨0, 3, 5⟩, ⟨0, 3, 5⟩, ⟨0, 3, 5⟩,
    ⟨0, 3, 5⟩, ⟨0, 3, 5⟩, ⟨4, 1, 5⟩, ⟨4, 1, 5⟩, ⟨4, 1, 5⟩, ⟨4, 1, 5⟩, ⟨4, 1, 5⟩,
    ⟨4, 1, 5⟩, ⟨4, 1, 5⟩, ⟨4, 1, 5⟩, ⟨3, 1, 5⟩, ⟨3, 1, 5⟩, ⟨3, 1, 5⟩, ⟨3, 1, 5⟩,
    ⟨3, 1, 5⟩, ⟨3, 1, 5⟩, ⟨3, 1, 5⟩, ⟨3, 1, 5⟩]

@[simp] theorem length_tab0 : tab0.length = 60 := rfl

/-- Codes `000001xx` to `11111111` of table B-15. -/
def tab0a : List DCTtab :=
  [⟨65, 0, 6⟩, ⟨65, 0, 6⟩, ⟨65, 0, 6⟩, ⟨65, 0, 6⟩, ⟨7, 1, 7⟩, ⟨7, 1, 7⟩, ⟨8, 1, 7⟩,
    ⟨8, 1, 7⟩, ⟨6, 1, 7⟩, ⟨6, 1, 7⟩, ⟨2, 2, 7⟩, ⟨2, 2, 7⟩, ⟨0, 7, 6⟩, ⟨0, 7, 6⟩,
    ⟨0, 7, 6⟩, ⟨0, 7, 6⟩, ⟨0, 6, 6⟩, ⟨0, 6, 6⟩, ⟨0, 6, 6⟩, ⟨0, 6, 6⟩, ⟨4, 1, 6⟩,
    ⟨4, 1, 6⟩, ⟨4, 1, 6⟩, ⟨4, 1, 6⟩, ⟨5, 1, 6⟩, ⟨5, 1, 6⟩, ⟨5, 1, 6⟩, ⟨5, 1, 6⟩,
    ⟨1, 5, 8⟩, ⟨11, 1, 8⟩, ⟨0, 11, 8⟩, ⟨0, 10, 8⟩, ⟨13, 1, 8⟩, ⟨12, 1, 8⟩, ⟨3, 2, 8⟩,
    ⟨1, 4, 8⟩, ⟨2, 1, 5⟩, ⟨2, 1, 5⟩, ⟨2, 1, 5⟩, ⟨2, 1, 5⟩, ⟨2, 1, 5⟩, ⟨2, 1, 5⟩,
    ⟨2, 1, 5⟩, ⟨2, 1, 5⟩, ⟨1, 2, 5⟩, ⟨1, 2, 5⟩, ⟨1, 2, 5⟩, ⟨1, 2, 5⟩, ⟨1, 2, 5⟩,
    ⟨1, 2, 5⟩, ⟨1, 2, 5⟩, ⟨1, 2, 5⟩, ⟨3, 1, 5⟩, ⟨3, 1, 5⟩, ⟨3, 1, 5⟩, ⟨3, 1, 5⟩,
    ⟨3, 1, 5⟩, ⟨3, 1, 5⟩, ⟨3, 1, 5⟩, ⟨3, 1, 5⟩, ⟨1, 1, 3⟩, ⟨1, 1, 3⟩, ⟨1, 1, 3⟩,
    ⟨1, 1, 3⟩, ⟨1, 1, 3⟩, ⟨1, 1, 3⟩, ⟨1, 1, 3⟩, ⟨1, 1, 3⟩, ⟨1, 1, 3⟩, ⟨1, 1, 3⟩,
    ⟨1, 1, 3⟩, ⟨1, 1, 3⟩, ⟨1, 1, 3⟩, ⟨1, 1, 3⟩, ⟨1, 1, 3⟩, ⟨1, 1, 3⟩, ⟨1, 1, 3⟩,
    ⟨1, 1, 3⟩, ⟨1, 1, 3⟩, ⟨1, 1, 3⟩, ⟨1, 1, 3⟩, ⟨1, 1, 3⟩, ⟨1, 1, 3⟩, ⟨1, 1, 3⟩,
    ⟨1, 1, 3⟩, ⟨1, 1, 3⟩, ⟨1, 1, 3⟩, ⟨1, 1, 3⟩, ⟨1, 1, 3⟩, ⟨1, 1, 3⟩, ⟨1, 1, 3⟩,
    ⟨1, 1, 3⟩, ⟨64, 0, 4⟩, ⟨64, 0, 4⟩, ⟨64, 0, 4⟩, ⟨64, 0, 4⟩, ⟨64, 0, 4⟩, ⟨64, 0, 4⟩,
    ⟨64, 0, 4⟩, ⟨64, 0, 4⟩, ⟨64, 0, 4⟩, ⟨64, 0, 4⟩, ⟨64, 0, 4⟩, ⟨64, 0, 4⟩, ⟨64, 0, 4⟩,
    ⟨64, 0, 4⟩, ⟨64, 0, 4⟩, ⟨64, 0, 4⟩, ⟨0, 3, 4⟩, ⟨0, 3, 4⟩, ⟨0, 3, 4⟩, ⟨0, 3, 4⟩,
    ⟨0, 3, 4⟩, ⟨0, 3, 4⟩, ⟨0, 3, 4⟩, ⟨0, 3, 4⟩, ⟨0, 3, 4⟩, ⟨0, 3, 4⟩, ⟨0, 3, 4⟩,
    ⟨0, 3, 4⟩, ⟨0, 3, 4⟩, ⟨0, 3, 4⟩, ⟨0, 3, 4⟩, ⟨0, 3, 4⟩, ⟨0, 1, 2⟩, ⟨0, 1, 2⟩,
    ⟨0, 1, 2⟩, ⟨0, 1, 2⟩, ⟨0, 1, 2⟩, ⟨0, 1, 2⟩, ⟨0, 1, 2⟩, ⟨0, 1, 2⟩, ⟨0, 1, 2⟩,
    ⟨0, 1, 2⟩, ⟨0, 1, 2⟩, ⟨0, 1, 2⟩, ⟨0, 1, 2⟩, ⟨0, 1, 2⟩, ⟨0, 1, 2⟩, ⟨0, 1, 2⟩,
    ⟨0, 1, 2⟩, ⟨0, 1, 2⟩, ⟨0, 1, 2⟩, ⟨0, 1, 2⟩, ⟨0, 1, 2⟩, ⟨0, 1, 2⟩, ⟨0, 1, 2⟩,
    ⟨0, 1, 2⟩, ⟨0, 1, 2⟩, ⟨0, 1, 2⟩, ⟨0, 1, 2⟩, ⟨0, 1, 2⟩, ⟨0, 1, 2⟩, ⟨0, 1, 2⟩,
    ⟨0, 1, 2⟩, ⟨0, 1, 2⟩, ⟨0, 1, 2⟩, ⟨0, 1, 2⟩, ⟨0, 1, 2⟩, ⟨0, 1, 2⟩, ⟨0, 1, 2⟩,
    ⟨0, 1, 2⟩, ⟨0, 1, 2⟩, ⟨0, 1, 2⟩, ⟨0, 1, 2⟩, ⟨0, 1, 2⟩, ⟨0, 1, 2⟩, ⟨0, 1, 2⟩,
    ⟨0, 1, 2⟩, ⟨0, 1, 2⟩, ⟨0, 1, 2⟩, ⟨0, 1, 2⟩, ⟨0, 1, 2⟩, ⟨0, 1, 2⟩, ⟨0, 1, 2⟩,
    ⟨0, 1, 2⟩, ⟨0, 1, 2⟩, ⟨0, 1, 2⟩, ⟨0, 1, 2⟩, ⟨0, 1, 2⟩, ⟨0, 1, 2⟩, ⟨0, 1, 2⟩,
    ⟨0, 1, 2⟩, ⟨0, 1, 2⟩, ⟨0, 1, 2⟩, ⟨0, 1, 2⟩, ⟨0, 1, 2⟩, ⟨0, 1, 2⟩, ⟨0, 2, 3⟩,
    ⟨0, 2, 3⟩, ⟨0, 2, 3⟩, ⟨0, 2, 3⟩, ⟨0, 2, 3⟩, ⟨0, 2, 3⟩, ⟨0, 2, 3⟩, ⟨0, 2, 3⟩,
    ⟨0, 2, 3⟩, ⟨0, 2, 3⟩, ⟨0, 2, 3⟩, ⟨0, 2, 3⟩, ⟨0, 2, 3⟩, ⟨0, 2, 3⟩, ⟨0, 2, 3⟩,
    ⟨0, 2, 3⟩, ⟨0, 2, 3⟩, ⟨0, 2, 3⟩, ⟨0, 2, 3⟩, ⟨0, 2, 3⟩, ⟨0, 2, 3⟩, ⟨0, 2, 3⟩,
    ⟨0, 2, 3⟩, ⟨0, 2, 3⟩, ⟨0, 2, 3⟩, ⟨0, 2, 3⟩, ⟨0, 2, 3⟩, ⟨0, 2, 3⟩, ⟨0, 2, 3⟩,
    ⟨0, 2, 3⟩, ⟨0, 2, 3⟩, ⟨0, 2, 3⟩, ⟨0, 4, 5⟩, ⟨0, 4, 5⟩, ⟨0, 4, 5⟩, ⟨0, 4, 5⟩,
    ⟨0, 4, 5⟩, ⟨0, 4, 5⟩, ⟨0, 4, 5⟩, ⟨0, 4, 5⟩, ⟨0, 5, 5⟩, ⟨0, 5, 5⟩, ⟨0, 5, 5⟩,
    ⟨0, 5, 5⟩, ⟨0, 5, 5⟩, ⟨0, 5, 5⟩, ⟨0, 5, 5⟩, ⟨0, 5, 5⟩, ⟨9, 1, 7⟩, ⟨9, 1, 7⟩,
    ⟨1, 3, 7⟩, ⟨1, 3, 7⟩, ⟨10, 1, 7⟩, ⟨10, 1, 7⟩, ⟨0, 8, 7⟩, ⟨0, 8, 7⟩, ⟨0, 9, 7⟩,
    ⟨0, 9, 7⟩, ⟨0, 12, 8⟩, ⟨0, 13, 8⟩, ⟨2, 3, 8⟩, ⟨4, 2, 8⟩, ⟨0, 14, 8⟩, ⟨0, 15, 8⟩]

@[simp] theorem length_tab0a : tab0a.length = 252 := by decide +kernel

def tab1 : List DCTtab :=
  [⟨16, 1, 10⟩, ⟨5, 2, 10⟩, ⟨0, 7, 10⟩, ⟨2, 3, 10⟩, ⟨1, 4, 10⟩, ⟨15, 1, 10⟩, ⟨14, 1, 10⟩,
    ⟨4, 2, 10⟩]

@[simp] theorem length_tab1 : tab1.length = 8 := rfl

def tab1a : List DCTtab :=
  [⟨5, 2, 9⟩, ⟨5, 2, 9⟩, ⟨14, 1, 9⟩, ⟨14, 1, 9⟩, ⟨2, 4, 10⟩, ⟨16, 1, 10⟩, ⟨15, 1, 9⟩,
    ⟨15, 1, 9⟩]

@[simp] theorem length_tab1a : tab1a.length = 8 := rfl

def tab2 : List DCTtab :=
  [⟨0, 11, 12⟩, ⟨8, 2, 12⟩, ⟨4, 3, 12⟩, ⟨0, 10, 12⟩, ⟨2, 4, 12⟩, ⟨7, 2, 12⟩, ⟨21, 1, 12⟩,
    ⟨20, 1, 12⟩, ⟨0, 9, 12⟩, ⟨19, 1, 12⟩, ⟨18, 1, 12⟩, ⟨1, 5, 12⟩, ⟨3, 3, 12⟩, ⟨0, 8, 12⟩,
    ⟨6, 2, 12⟩, ⟨17, 1, 12⟩]

@[simp] theorem length_tab2 : tab2.length = 16 := rfl

def tab3 : List DCTtab :=
  [⟨10, 2, 13⟩, ⟨9, 2, 13⟩, ⟨5, 3, 13⟩, ⟨3, 4, 13⟩, ⟨2, 5, 13⟩, ⟨1, 7, 13⟩, ⟨1, 6, 13⟩,
    ⟨0, 15, 13⟩, ⟨0, 14, 13⟩, ⟨0, 13, 13⟩, ⟨0, 12, 13⟩, ⟨26, 1, 13⟩, ⟨25, 1, 13⟩, ⟨24, 1, 13⟩,
    ⟨23, 1, 13⟩, ⟨22, 1, 13⟩]

@[simp] theorem length_tab3 : tab3.length = 16 := rfl

def tab4 : List DCTtab :=
  [⟨0, 31, 14⟩, ⟨0, 30, 14⟩, ⟨0, 29, 14⟩, ⟨0, 28, 14⟩, ⟨0, 27, 14⟩, ⟨0, 26, 14⟩, ⟨0, 25, 14⟩,
    ⟨0, 24, 14⟩, ⟨0, 23, 14⟩, ⟨0, 22, 14⟩, ⟨0, 21, 14⟩, ⟨0, 20, 14⟩, ⟨0, 19, 14⟩, ⟨0, 18, 14⟩,
    ⟨0, 17, 14⟩, ⟨0, 16, 14⟩]

@[simp] theorem length_tab4 : tab4.length = 16 := rfl

def tab5 : List DCTtab :=
  [⟨0, 40, 15⟩, ⟨0, 39, 15⟩, ⟨0, 38, 15⟩, ⟨0, 37, 15⟩, ⟨0, 36, 15⟩, ⟨0, 35, 15⟩, ⟨0, 34, 15⟩,
    ⟨0, 33, 15⟩, ⟨0, 32, 15⟩, ⟨1, 14, 15⟩, ⟨1, 13, 15⟩, ⟨1, 12, 15⟩, ⟨1, 11, 15⟩, ⟨1, 10, 15⟩,
    ⟨1, 9, 15⟩, ⟨1, 8, 15⟩]

@[simp] theorem length_tab5 : tab5.length = 16 := rfl

def tab6 : List DCTtab :=
  [⟨1, 18, 16⟩, ⟨1, 17, 16⟩, ⟨1, 16, 16⟩, ⟨1, 15, 16⟩, ⟨6, 3, 16⟩, ⟨16, 2, 16⟩, ⟨15, 2, 16⟩,
    ⟨14, 2, 16⟩, ⟨13, 2, 16⟩, ⟨12, 2, 16⟩, ⟨11, 2, 16⟩, ⟨31, 1, 16⟩, ⟨30, 1, 16⟩, ⟨29, 1, 16⟩,
    ⟨28, 1, 16⟩, ⟨27, 1, 16⟩]

@[simp] theorem length_tab6 : tab6.length = 16 := rfl

end DCT

end OmegaRed.IPU
