import Mathlib

/-! The macroblock decoder of the IOP and its two DMA channels.  An access outside of `mdecMem`,
`mdecArr2`, `blk` or `roundtbl` has no result. -/

namespace OmegaRed.Mdec

local instance neZero_side : NeZero 8 := ⟨by decide⟩
local instance neZero_block : NeZero 64 := ⟨by decide⟩

universe u

/-- `mdecMem` in halfwords. -/
def mdecMemSize : Nat := 0x200000

/-- `mdecArr2` in bytes. -/
def mdecArr2Size : Nat := 0x400000

section Buffer

variable {α : Type u}

def peek (n : Nat) (m : Nat → α) (i : Nat) : Option α := if i < n then some (m i) else none

def poke (n : Nat) (m : Nat → α) (i : Nat) (a : α) : Option (Nat → α) :=
  if i < n then some (Function.update m i a) else none

end Buffer

/-- A block of coefficients or of samples; `int` wraps around. -/
abbrev Block := Fin 64 → Int32

def zscan : Fin 64 → Fin 64 := fun k =>
  ⟨[0, 1, 8, 16, 9, 2, 3, 10,
    17, 24, 32, 25, 18, 11, 4, 5,
    12, 19, 26, 33, 40, 48, 41, 34,
    27, 20, 13, 6, 7, 14, 21, 28,
    35, 42, 49, 56, 57, 50, 43, 36,
    29, 22, 15, 23, 30, 37, 44, 51,
    58, 59, 52, 45, 38, 31, 39, 46,
    53, 60, 61, 54, 47, 55, 62, 63].getD k 0 % 64,
    Nat.mod_lt _ (by decide)⟩

def aanscales : Fin 64 → Int32 := fun k =>
  [16384, 22725, 21407, 19266, 16384, 12873, 8867, 4520,
   22725, 31521, 29692, 26722, 22725, 17855, 12299, 6270,
   21407, 29692, 27969, 25172, 21407, 16819, 11585, 5906,
   19266, 26722, 25172, 22654, 19266, 15137, 10426, 5315,
   16384, 22725, 21407, 19266, 16384, 12873, 8867, 4520,
   12873, 17855, 16819, 15137, 12873, 10114, 6967, 3552,
   8867, 12299, 11585, 10426, 8867, 6967, 4799, 2446,
   4520, 6270, 5906, 5315, 4520, 3552, 2446, 1247].getD k 0

/-- `MULTIPLY` -/
def multiply (var const : Int32) : Int32 := (var * const) >>> 8

/-- `RANGE(DESCALE(x, PASS1_BITS+3))` -/
def descale (x : Int32) : Int32 := x >>> 5

/-- Eight values of a row or of a column. -/
abbrev Line := Fin 8 → Int32

/-- What `idct` does to a line that is not constant. -/
def butterfly (v : Line) : Line :=
  let z10 := v 0 + v 4
  let z11 := v 0 - v 4
  let z13 := v 2 + v 6
  let z12 := multiply (v 2 - v 6) 362 - z13
  let tmp0 := z10 + z13
  let tmp3 := z10 - z13
  let tmp1 := z11 + z12
  let tmp2 := z11 - z12
  let z13 := v 3 + v 5
  let z10 := v 3 - v 5
  let z11 := v 1 + v 7
  let z12 := v 1 - v 7
  let z5 := multiply (z12 - z10) 473
  let tmp7 := z11 + z13
  let tmp6 := multiply z10 669 + z5 - tmp7
  let tmp5 := multiply (z11 - z13) 362 - tmp6
  let tmp4 := multiply z12 277 - z5 + tmp5
  ![tmp0 + tmp7, tmp1 + tmp6, tmp2 + tmp5, tmp3 - tmp4, tmp3 + tmp4, tmp2 - tmp5, tmp1 - tmp6,
    tmp0 - tmp7]

/-- All but the first value are zero. -/
def flat (v : Line) : Bool := v 1 ||| v 2 ||| v 3 ||| v 4 ||| v 5 ||| v 6 ||| v 7 == 0

def idctColumn (v : Line) : Line := if flat v then fun _ => v 0 else butterfly v

def idctRow (v : Line) : Line :=
  if flat v then fun _ => descale (v 0) else fun j => descale (butterfly v j)

def column (b : Block) (i : Fin 8) : Line := fun j => b ⟨8 * j + i, by omega⟩

def row (b : Block) (i : Fin 8) : Line := fun j => b ⟨8 * i + j, by omega⟩

/-- `idct(block, k)` with `k` not zero, the only way in which it is called. -/
def idct (b : Block) : Block :=
  let pass1 : Block := fun k =>
    idctColumn (column b ⟨k % 8, Nat.mod_lt _ (by decide)⟩) ⟨k / 8, by omega⟩
  fun k => idctRow (row pass1 ⟨k / 8, by omega⟩) ⟨k % 8, Nat.mod_lt _ (by decide)⟩

/-- `RUNOF` -/
def runOf (rl : UInt16) : Nat := (rl >>> 10).toNat

/-- `VALOF`: the low ten bits with their sign. -/
def valOf (rl : UInt16) : Int32 := (rl.toUInt32 <<< 22).toInt32 >>> 22

def nop : UInt16 := 0xfe00

/-- What the code `rl` does with the coefficient `k` reached: none if the block ends with it. -/
def afterCode (iqtab : Block) (qScale : Int32) (k : Nat) (blk : Block) (rl : UInt16) :
    Option (Nat × Block) :=
  if rl = nop then none
  else if h : k + (runOf rl + 1) < 64 then
    some (k + (runOf rl + 1),
      Function.update blk (zscan ⟨_, h⟩) (valOf rl * iqtab ⟨_, h⟩ * qScale / 8))
  else none

section Decode

variable {m : Type → Type} [Monad m] (read : Nat → m UInt16)

/-- The codes of a block from `p` on, at most `n` of them. -/
def readCodes (iqtab : Block) (qScale : Int32) : Nat → Nat → Block → Nat → m (Block × Nat)
  | 0, _, blk, p => pure (blk, p)
  | n + 1, k, blk, p =>
    read p >>= fun rl =>
      match afterCode iqtab qScale k blk rl with
      | none => pure (blk, p + 1)
      | some (k, blk) => readCodes iqtab qScale n k blk (p + 1)

/-- A block, and the position behind its codes. -/
def readBlock (iqtab : Block) (p : Nat) : m (Block × Nat) :=
  read p >>= fun rl =>
    readCodes read iqtab (.ofNat (runOf rl)) 64 0
      (Function.update (fun _ => 0) 0 (iqtab 0 * valOf rl)) (p + 1) >>= fun r =>
      pure (idct r.1, r.2)

def readBlocks : List Block → Nat → m (List Block × Nat)
  | [], p => pure ([], p)
  | iqtab :: iqtabs, p =>
    readBlock read iqtab p >>= fun r =>
      readBlocks iqtabs r.2 >>= fun rs => pure (r.1 :: rs.1, rs.2)

/-- The six blocks Cr, Cb and Y1 to Y4. -/
def rl2blk (iqY iqUv : Block) (p : Nat) : m (List Block × Nat) :=
  readBlocks read [iqUv, iqUv, iqY, iqY, iqY, iqY] p

end Decode

/-- `blk` as an array of 384 values. -/
def samples (bs : List Block) (i : Nat) : Int32 :=
  (bs.getD (i / 64) fun _ => 0) ⟨i % 64, Nat.mod_lt _ (by decide)⟩

def roundtbl (i : Nat) : UInt8 := if i < 256 then 0 else if i < 512 then .ofNat (i - 256) else 255

/-- `ROUND` -/
def round (c : Int32) : Option UInt8 :=
  let i := (c + 128 + 256).toInt
  if 0 ≤ i ∧ i < 768 then some (roundtbl i.toNat) else none

def mulR (a : Int32) : Int32 := (0x59B * a) >>> 10
def mulG (a : Int32) : Int32 := (-0x15F * a) >>> 10
def mulG2 (a : Int32) : Int32 := (-0x2DB * a) >>> 10
def mulB (a : Int32) : Int32 := (0x716 * a) >>> 10

/-- A pixel of the image, and where its samples are in `blk`. -/
structure Pixel where
  n : Nat
  y : Nat
  cr : Nat
  cb : Nat
  deriving DecidableEq

/-- `image`, `Yblk`, `Crblk` and `Cbblk` -/
structure Pointers where
  image : Nat
  yblk : Nat
  crblk : Nat
  cbblk : Nat

namespace Pointers

variable (p : Pointers)

/-- The eight pixels of one round. -/
def pixels : List Pixel :=
  [⟨p.image + 0, p.yblk + 0, p.crblk, p.cbblk⟩,
    ⟨p.image + 1, p.yblk + 1, p.crblk, p.cbblk⟩,
    ⟨p.image + 16, p.yblk + 8, p.crblk, p.cbblk⟩,
    ⟨p.image + 17, p.yblk + 9, p.crblk, p.cbblk⟩,
    ⟨p.image + 8, p.yblk + 64 + 0, p.crblk + 4, p.cbblk + 4⟩,
    ⟨p.image + 9, p.yblk + 64 + 1, p.crblk + 4, p.cbblk + 4⟩,
    ⟨p.image + 24, p.yblk + 64 + 8, p.crblk + 4, p.cbblk + 4⟩,
    ⟨p.image + 25, p.yblk + 64 + 9, p.crblk + 4, p.cbblk + 4⟩]

/-- The loop over `x`. -/
def columns : Nat → Pointers → List Pixel × Pointers
  | 0, p => ([], p)
  | n + 1, p =>
    let r := columns n ⟨p.image + 2, p.yblk + 2, p.crblk + 1, p.cbblk + 1⟩
    (p.pixels ++ r.1, r.2)

/-- The loop over `y`. -/
def rows : List Nat → Pointers → List Pixel
  | [], _ => []
  | y :: ys, p =>
    let p := if y = 8 then { p with yblk := p.yblk + 64 } else p
    let r := columns 4 p
    r.1 ++ rows ys ⟨r.2.image + 24, r.2.yblk + 8, r.2.crblk + 4, r.2.cbblk + 4⟩

end Pointers

/-- The 256 pixels in the order in which they are drawn. -/
def pixels : List Pixel := Pointers.rows [0, 2, 4, 6, 8, 10, 12, 14] ⟨0, 128, 64, 0⟩

/-- `Y + R`, `Y + G` and `Y + B`; in black and white only `Y`. -/
def shades (bw : Bool) (blk : Nat → Int32) (px : Pixel) : Option (Int32 × Int32 × Int32) :=
  (peek 384 blk px.y).bind fun y =>
    if bw then some (y, y, y)
    else
      (peek 384 blk px.cr).bind fun cr =>
        (peek 384 blk px.cb).map fun cb => (y + mulR cr, y + (mulG cb + mulG2 cr), y + mulB cb)

def rounded (c : Int32 × Int32 × Int32) : Option (UInt8 × UInt8 × UInt8) :=
  (round c.1).bind fun r => (round c.2.1).bind fun g => (round c.2.2).map fun b => (r, g, b)

/-- The colour of a pixel. -/
def colour (bw : Bool) (blk : Nat → Int32) (px : Pixel) : Option (UInt8 × UInt8 × UInt8) :=
  (shades bw blk px).bind rounded

/-- `MAKERGB15` -/
def makeRgb15 (c : UInt8 × UInt8 × UInt8) : UInt16 :=
  ((c.1.toUInt16 >>> 3) <<< 10) ||| ((c.2.1.toUInt16 >>> 3) <<< 5) ||| (c.2.2.toUInt16 >>> 3)

/-- `RGB15`, with the image from the halfword `image` on. -/
def rgb15 (bw : Bool) (blk : Nat → Int32) (image : Nat) (arr : Nat → UInt8) (px : Pixel) :
    Option (Nat → UInt8) :=
  (colour bw blk px).bind fun c =>
    (poke mdecArr2Size arr (2 * (image + px.n)) (makeRgb15 c).toUInt8).bind fun arr =>
      poke mdecArr2Size arr (2 * (image + px.n) + 1) (makeRgb15 c >>> 8).toUInt8

/-- `RGB24` -/
def rgb24 (bw : Bool) (blk : Nat → Int32) (image : Nat) (arr : Nat → UInt8) (px : Pixel) :
    Option (Nat → UInt8) :=
  (colour bw blk px).bind fun c =>
    (poke mdecArr2Size arr (2 * image + 3 * px.n + 2) c.1).bind fun arr =>
      (poke mdecArr2Size arr (2 * image + 3 * px.n + 1) c.2.1).bind fun arr =>
        poke mdecArr2Size arr (2 * image + 3 * px.n) c.2.2

/-- `mdecMem` as bytes. -/
def byteAt (mem : Nat → UInt16) (i : Nat) : UInt8 :=
  if i % 2 = 0 then (mem (i / 2)).toUInt8 else (mem (i / 2) >>> 8).toUInt8

/-- `iqtab_init` from the byte `p` of `mdecMem` on, which is 0 or 64. -/
def iqtabInit (mem : Nat → UInt16) (p : Nat) : Block := fun i =>
  ((byteAt mem (p + i)).toUInt32.toInt32 * aanscales (zscan i)) >>> 12

/-- `mdec` and the buffers; `rl` is an index of `mdecMem` in halfwords, and `bw` is bit 0 of
`Config.Mdec`. -/
structure State where
  command : UInt32
  rlsize : UInt32
  rl : Nat
  mdecMem : Nat → UInt16
  mdecArr2 : Nat → UInt8
  iqY : Block
  iqUv : Block
  bw : Bool

/-- The product of the size and of the count of the blocks. -/
def dmaSize (bcr : UInt32) : Int := ((bcr >>> 16) * (bcr &&& 0xffff)).toInt32.toInt

def pokeWord (mem : Nat → UInt16) (i : Nat) (w : UInt32) : Option (Nat → UInt16) :=
  (poke mdecMemSize mem (2 * i) w.toUInt16).bind fun mem =>
    poke mdecMemSize mem (2 * i + 1) (w >>> 16).toUInt16

def peekWord (arr : Nat → UInt8) (i : Nat) : Option UInt32 :=
  (peek mdecArr2Size arr (4 * i)).bind fun b0 =>
    (peek mdecArr2Size arr (4 * i + 1)).bind fun b1 =>
      (peek mdecArr2Size arr (4 * i + 2)).bind fun b2 =>
        (peek mdecArr2Size arr (4 * i + 3)).map fun b3 =>
          b0.toUInt32 ||| (b1.toUInt32 <<< (8 : UInt32)) ||| (b2.toUInt32 <<< (16 : UInt32)) |||
            (b3.toUInt32 <<< (24 : UInt32))

namespace State

variable (s : State)

def mdecInit : State where
  command := 0
  rlsize := 0
  rl := 0
  mdecMem := fun _ => 0
  mdecArr2 := fun _ => 0
  iqY := fun _ => 0
  iqUv := fun _ => 0
  bw := false

def mdecWrite0 (data : UInt32) : State :=
  { s with
    command := data
    rlsize := if data &&& 0xf5ff0000 = 0x30000000 then data &&& 0xffff else s.rlsize }

/-- The commands for quantiser tables and for macroblocks take what the transfer has brought. -/
def take : State :=
  if s.command = 0x40000001 then
    { s with iqY := iqtabInit s.mdecMem 0, iqUv := iqtabInit s.mdecMem 64 }
  else if s.command &&& 0xf5ff0000 = 0x30000000 then { s with rl := 0 }
  else s

def psxDma0 (iopMem : UInt32 → UInt32) (adr bcr chcr : UInt32) : Option State :=
  if chcr ≠ 0x01000201 then some s
  else if dmaSize bcr < 0 then some s
  else
    ((List.range (dmaSize bcr).toNat).foldlM
      (fun mem i => pokeWord mem i (iopMem (adr + .ofNat (4 * i)))) s.mdecMem).map
        fun mdecMem => { s with mdecMem }.take

/-- The loop of `psxDma1` with `w` words a macroblock, of which there are no more than `n`. -/
def macroblocks (w : Nat)
    (rgb : (Nat → Int32) → Nat → (Nat → UInt8) → Pixel → Option (Nat → UInt8)) :
    Nat → Int → Nat → State → Option State
  | 0, _, _, s => some s
  | n + 1, size, image, s =>
    if 0 < size then
      (rl2blk (peek mdecMemSize s.mdecMem) s.iqY s.iqUv s.rl).bind fun r =>
        (pixels.foldlM (rgb (samples r.1) image) s.mdecArr2).bind fun mdecArr2 =>
          macroblocks w rgb n (size - w) (image + 2 * w) { s with rl := r.2, mdecArr2 }
    else some s

/-- The state, and the words that are written to the memory of the IOP. -/
def psxDma1 (adr bcr chcr : UInt32) : Option (State × List (UInt32 × UInt32)) :=
  if chcr ≠ 0x01000200 then some (s, [])
  else if dmaSize bcr < 0 then some (s, [])
  else
    (if s.command &&& 0x08000000 ≠ 0 then
      macroblocks (16 * 16 / 2) (rgb15 s.bw) (dmaSize bcr).toNat (dmaSize bcr) 0 s
    else macroblocks (24 * 16 / 2) (rgb24 s.bw) (dmaSize bcr).toNat (dmaSize bcr) 0 s).bind fun t =>
      ((List.range (dmaSize bcr).toNat).mapM fun i =>
        (peekWord t.mdecArr2 i).map fun w => ((adr &&& 0x00FFFFFF) + .ofNat (4 * i), w)).map
          fun out => (t, out)

end State

/-- The memory of the IOP is that at the time of the transfer. -/
inductive Event
  | mdecWrite0 (data : UInt32)
  | mdecWrite1 (data : UInt32)
  | psxDma0 (iopMem : UInt32 → UInt32) (adr bcr chcr : UInt32)
  | psxDma1 (adr bcr chcr : UInt32)

/-- A reset by `mdecWrite1` writes the same values into `roundtbl` again. -/
def State.step (s : State) : Event → Option State
  | .mdecWrite0 data => some (s.mdecWrite0 data)
  | .mdecWrite1 _ => some s
  | .psxDma0 iopMem adr bcr chcr => s.psxDma0 iopMem adr bcr chcr
  | .psxDma1 adr bcr chcr => (s.psxDma1 adr bcr chcr).map Prod.fst

end OmegaRed.Mdec
