import OmegaRed.IPU.Bitstream
import Mathlib.Data.Fin.Basic

/-! The coefficients of a block: `get_intra_block` and `get_non_intra_block`.  An access outside of
a table or of the block has no result. -/

namespace OmegaRed.IPU

/-- What the block functions read of `decoder`. -/
structure Decoder where
  scantype : Bool
  iq : Fin 64 → BitVec 8
  niq : Fin 64 → BitVec 8
  quantizerScale : BitVec 32
  intraVlcFormat : Bool
  mpeg1 : Bool

/-- The bit reader, `ipu_cmd.pos[4]` and `pos[5]`, `tab`, `decoder.DCTblock` and `*last`. -/
structure Block where
  bits : State
  pos4 : Int
  pos5 : Bool
  tab : Option DCTtab
  dctBlock : Fin 64 → BitVec 16
  last : Option Int

/-- Entry `k` of a table. -/
def DCT.entry (t : List DCTtab) (k : Int) : Option DCTtab := if k < 0 then none else t[k.toNat]?

/-- Element `i` of an array of 64. -/
def at64 {α : Type} (f : Fin 64 → α) (i : Int) : Option α :=
  if h : 0 ≤ i ∧ i < 64 then some (f ⟨i.toNat, by omega⟩) else none

def scanNorm : List Nat :=
  [0, 1, 8, 16, 9, 2, 3, 10, 17, 24, 32, 25, 18, 11, 4, 5,
    12, 19, 26, 33, 40, 48, 41, 34, 27, 20, 13, 6, 7, 14, 21, 28,
    35, 42, 49, 56, 57, 50, 43, 36, 29, 22, 15, 23, 30, 37, 44, 51,
    58, 59, 52, 45, 38, 31, 39, 46, 53, 60, 61, 54, 47, 55, 62, 63]

def scanAlt : List Nat :=
  [0, 8, 16, 24, 1, 9, 2, 10, 17, 25, 32, 40, 48, 56, 57, 49,
    41, 33, 26, 18, 3, 11, 4, 12, 19, 27, 34, 42, 50, 58, 35, 43,
    51, 59, 20, 28, 5, 13, 6, 14, 21, 29, 36, 44, 52, 60, 37, 45,
    53, 61, 22, 30, 7, 15, 23, 31, 38, 46, 54, 62, 39, 47, 55, 63]

/-- `mpeg2_scan`, which permutes the patterns for the inverse transform. -/
def mpeg2Scan (alt : Bool) (i : Fin 64) : Nat :=
  let j := (if alt then scanAlt else scanNorm).getD i 0
  ((j &&& 0x36) >>> 1) ||| ((j &&& 0x09) <<< 2)

/-- The block functions: for an intra block the coefficient that is decoded is the one behind
`pos[4]`. -/
inductive BlockKind
  | intra
  | nonIntra
  deriving DecidableEq

/-- The tables below the ones that depend on the kind of the block. -/
def lowerTab (code : Nat) : Option (List DCTtab × Int) :=
  if code ≥ 256 then some (DCT.tab2, (code >>> 4 : Nat) - 16)
  else if code ≥ 128 then some (DCT.tab3, (code >>> 3 : Nat) - 16)
  else if code ≥ 64 then some (DCT.tab4, (code >>> 2 : Nat) - 16)
  else if code ≥ 32 then some (DCT.tab5, (code >>> 1 : Nat) - 16)
  else if code ≥ 16 then some (DCT.tab6, code - 16)
  else none

/-- The table and the offset that `get_intra_block` chooses for a window of 16 bits. -/
def intraTab (d : Decoder) (code : Nat) : Option (List DCTtab × Int) :=
  if code ≥ 16384 ∧ (!d.intraVlcFormat || d.mpeg1) then some (DCT.next, (code >>> 12 : Nat) - 4)
  else if code ≥ 1024 then
    if d.intraVlcFormat && !d.mpeg1 then some (DCT.tab0a, (code >>> 8 : Nat) - 4)
    else some (DCT.tab0, (code >>> 8 : Nat) - 4)
  else if code ≥ 512 then
    if d.intraVlcFormat && !d.mpeg1 then some (DCT.tab1a, (code >>> 6 : Nat) - 8)
    else some (DCT.tab1, (code >>> 6 : Nat) - 8)
  else lowerTab code

/-- The same for `get_non_intra_block`. -/
def nonIntraTab (i : Int) (code : Nat) : Option (List DCTtab × Int) :=
  if code ≥ 16384 then
    if i = 0 then some (DCT.first, (code >>> 12 : Nat) - 4)
    else some (DCT.next, (code >>> 12 : Nat) - 4)
  else if code ≥ 1024 then some (DCT.tab0, (code >>> 8 : Nat) - 4)
  else if code ≥ 512 then some (DCT.tab1, (code >>> 6 : Nat) - 8)
  else lowerTab code

/-- `SATURATE` -/
def saturate (val : BitVec 32) : BitVec 32 :=
  if 4095 < val + 2048 then val.sshiftRight 31 ^^^ 2047 else val

/-- The escaped level of MPEG1, which has one or two bytes. -/
def mpeg1Level (bits : State) : BitVec 32 × State :=
  let val := bits.sbits 8
  let bits := bits.advance 8
  if val &&& 0x7f = 0 then (bits.ubits 8 + 2 * val, bits.advance 8) else (val, bits)

/-- The value of a coefficient in an intra block. -/
def intraValue (d : Decoder) (tab : DCTtab) (quant : BitVec 8) (bits : State) : BitVec 32 × State :=
  let scale := fun val : BitVec 32 => val * d.quantizerScale * quant.setWidth 32
  if tab.run = 65 then
    if !d.mpeg1 then ((scale (bits.sbits 12)).sshiftRight 4, bits.advance 12)
    else
      let (val, bits) := mpeg1Level bits
      let val := (scale val).sshiftRight 4
      ((val + ~~~val.sshiftRight 31) ||| 1, bits)
  else
    let val := (scale (.ofNat 32 tab.level)).sshiftRight 4
    let val := if d.mpeg1 then (val - 1) ||| 1 else val
    let bit1 := bits.sbits 1
    ((val ^^^ bit1) - bit1, bits.advance 1)

/-- The value of a coefficient in a block that is not intra. -/
def nonIntraValue (d : Decoder) (tab : DCTtab) (quant : BitVec 8) (bits : State) :
    BitVec 32 × State :=
  let scale := fun val : BitVec 32 => (2 * val + 1) * d.quantizerScale * quant.setWidth 32
  if tab.run = 65 then
    if !d.mpeg1 then ((scale (bits.sbits 12 + bits.sbits 1)).sshiftRight 5, bits.advance 12)
    else
      let (val, bits) := mpeg1Level bits
      let val := (scale (val + val.sshiftRight 31)).sdiv 32
      ((val + ~~~val.sshiftRight 31) ||| 1, bits)
  else
    let bit1 := bits.sbits 1
    let val := (scale (.ofNat 32 tab.level)).sshiftRight 5
    ((val ^^^ bit1) - bit1, bits.advance 1)

namespace BlockKind

/-- The coefficient that a call begins with. -/
def first (k : BlockKind) (pos4 : Int) : Int :=
  match k with
  | intra => 1 + pos4
  | nonIntra => pos4

/-- What a call that ends at a coefficient leaves in `pos[4]`. -/
def resumeAt (k : BlockKind) (i : Int) : Int :=
  match k with
  | intra => i - 1
  | nonIntra => i

def tabFor (k : BlockKind) (d : Decoder) (i : Int) (code : Nat) : Option (List DCTtab × Int) :=
  match k with
  | intra => intraTab d code
  | nonIntra => nonIntraTab i code

def quantMatrix (k : BlockKind) (d : Decoder) : Fin 64 → BitVec 8 :=
  match k with
  | intra => d.iq
  | nonIntra => d.niq

def value (k : BlockKind) : Decoder → DCTtab → BitVec 8 → State → BitVec 32 × State :=
  match k with
  | intra => intraValue
  | nonIntra => nonIntraValue

end BlockKind

namespace Block

/-- The block is done; `get_non_intra_block` says where. -/
def finish (s : Block) (k : BlockKind) (i : Int) : Block :=
  match k with
  | .intra => { s with pos4 := 0 }
  | .nonIntra => { s with pos4 := 0, last := some i }

/-- How a part of the loop's body ends. -/
inductive Outcome
  | ret (b : Bool)
  | go (i : Int)
  deriving DecidableEq

/-- `case 0`, which looks up the code and skips the run. -/
def readCode (k : BlockKind) (d : Decoder) (s : Block) (i : Int) : Option (Block × Outcome) :=
  match s.bits.fillBuffer 16 with
  | (bits, false) => some ({ s with bits := bits, pos4 := k.resumeAt i }, .ret false)
  | (bits, true) =>
    match k.tabFor d i (bits.ubits 16).toNat with
    | none => some ({ s with bits := bits, pos4 := 0 }, .ret true)
    | some (table, offset) => do
      let tab ← DCT.entry table offset
      let s := { s with bits := bits.advance tab.len, tab := some tab }
      if tab.run = 64 then some (s.finish k i, .ret true)
      else
        let (run, bits) := if tab.run = 65 then ((s.bits.ubits 6).toNat, s.bits.advance 6)
          else (tab.run, s.bits)
        let s := { s with bits := bits }
        if i + run ≥ 64 then some (s.finish k (i + run), .ret true) else some (s, .go (i + run))

/-- `case 1`, which stores the coefficient. -/
def storeCoef (k : BlockKind) (d : Decoder) (s : Block) (i : Int) : Option (Block × Outcome) :=
  match s.bits.fillBuffer 16 with
  | (bits, false) =>
    some ({ s with bits := bits, pos4 := k.resumeAt i, pos5 := true }, .ret false)
  | (bits, true) => do
    let j ← at64 (mpeg2Scan d.scantype) i
    let tab ← s.tab
    let quant ← at64 (k.quantMatrix d) i
    let (val, bits) := k.value d tab quant bits
    if h : j < 64 then
      some ({ s with
        bits := bits
        dctBlock := Function.update s.dctBlock ⟨j, h⟩ ((saturate val).setWidth 16)
        pos5 := false }, .go (i + 1))
    else none

/-- A call that found the code of a coefficient goes on with its value. -/
def enter (k : BlockKind) (d : Decoder) (s : Block) (i : Int) : Option (Block × Outcome) :=
  if s.pos5 then some (s, .go i) else s.readCode k d i

/-- The loop over the coefficients, for at most `fuel` of them. -/
def loop (k : BlockKind) (d : Decoder) : Nat → Block → Int → Option (Block × Bool)
  | 0, _, _ => none
  | fuel + 1, s, i => do
    let (s, r) ← s.enter k d i
    match r with
    | .ret b => some (s, b)
    | .go i => do
      let (s, r) ← s.storeCoef k d i
      match r with
      | .ret b => some (s, b)
      | .go i => loop k d fuel s i

/-- No block has more than 64 coefficients, so the loop never takes more rounds. -/
def getBlock (k : BlockKind) (d : Decoder) (s : Block) : Option (Block × Bool) :=
  s.loop k d 65 (k.first s.pos4)

end Block

end OmegaRed.IPU
