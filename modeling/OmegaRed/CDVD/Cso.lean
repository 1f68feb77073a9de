import OmegaRed.CDVD.IsoFile
import OmegaRed.Lib.Traces
import OmegaRed.Lib.Pieces

/-! The reader of compressed ISO images.  `inflate` is zlib's on a whole raw stream: did it
end, and what was written, which is at most the given size. -/

namespace OmegaRed.CDVD

open Lib.Memory

structure CsoHeader where
  magic : List UInt8
  totalBytes : Nat
  frameSize : Nat
  ver : Nat
  align : Nat
  deriving DecidableEq

/-- The header in its 24 bytes; the fields nobody looks at are left out. -/
def CsoHeader.read (data : List UInt8) : CsoHeader where
  magic := data.take 4
  totalBytes := (u32At data 8).toNat + 2 ^ 32 * (u32At data 12).toNat
  frameSize := (u32At data 16).toNat
  ver := (data.getD 20 0).toNat
  align := (data.getD 21 0).toNat

/-- `CISO`. -/
def CsoHeader.cisoMagic : List UInt8 := [0x43, 0x49, 0x53, 0x4f]

def CsoHeader.validateHeader (hdr : CsoHeader) : Bool :=
  if hdr.magic ≠ cisoMagic then false
  else if hdr.ver > 1 then false
  else if hdr.frameSize &&& (hdr.frameSize - 1) ≠ 0 then false
  else if hdr.frameSize < 2048 then false
  else true

def csoReadBufferSize : Nat := 256 * 1024

structure CsoFileReader where
  frameSize : Nat
  frameShift : Nat
  indexShift : Nat
  zlibBuffer : Nat → UInt8
  zlibBufferFrame : Nat
  index : List UInt32
  totalSize : Nat
  src : List UInt8
  blocksize : Nat
  dataoffset : Int

/-- The loop over `m_frameSize` in `ReadFileHeader`. -/
def frameShiftOf (i : Nat) : Nat := if i > 1 then frameShiftOf (i >>> 1) + 1 else 0
termination_by i
decreasing_by
  rw [Nat.shiftRight_succ]
  exact Nat.div_lt_self (by omega) (by decide)

namespace CsoFileReader

/-- `Open` of a new reader: `ReadFileHeader` and `InitializeBuffers`. -/
def openFile (src : List UInt8) (zlibBuffer : Nat → UInt8) : Option CsoFileReader :=
  let data := fread src 0 24
  if data.length ≠ 24 then none
  else
    let hdr := CsoHeader.read data
    if !hdr.validateHeader then none
    else
      let numFrames := (hdr.totalBytes + hdr.frameSize - 1) % 2 ^ 64 / hdr.frameSize % 2 ^ 32
      let indexSize := (numFrames + 1) % 2 ^ 32
      let index := fread src 24 (4 * indexSize)
      if index.length ≠ 4 * indexSize then none
      else some {
        frameSize := hdr.frameSize
        frameShift := frameShiftOf hdr.frameSize
        indexShift := hdr.align
        zlibBuffer := zlibBuffer
        zlibBufferFrame := numFrames
        index := (List.range indexSize).map fun i => u32At index (4 * i)
        totalSize := hdr.totalBytes
        src := src
        blocksize := 2048
        dataoffset := 0 }

def setBlockSize (r : CsoFileReader) (bytes : Nat) : CsoFileReader := { r with blocksize := bytes }

/-- The index entry of a frame, without the bit that says it is stored. -/
def entry (r : CsoFileReader) (frame : Nat) : UInt32 := r.index.getD frame 0 &&& 0x7FFFFFFF

def compressed (r : CsoFileReader) (frame : Nat) : Bool := r.index.getD frame 0 &&& 0x80000000 = 0

def frameRawPos (r : CsoFileReader) (frame : Nat) : Nat := (r.entry frame).toNat <<< r.indexShift

def frameRawSize (r : CsoFileReader) (frame : Nat) : Nat :=
  (r.entry (frame + 1) - r.entry frame).toNat <<< r.indexShift

section

variable (inflate : List UInt8 → Nat → Bool × List UInt8)

def decompressFrame (r : CsoFileReader) (frame : Nat) (readBuffer : List UInt8) :
    Bool × CsoFileReader :=
  let (streamEnd, out) := inflate readBuffer r.frameSize
  let r := { r with zlibBuffer := store r.zlibBuffer 0 out }
  if streamEnd && out.length = r.frameSize then (true, { r with zlibBufferFrame := frame })
  else (false, { r with zlibBufferFrame := 2 ^ 32 - 1 })

/-- The part of `ReadFromFrame` that gets a compressed frame into `m_zlibBuffer`. -/
def cacheFrame (r : CsoFileReader) (frame : Nat) : Bool × CsoFileReader :=
  if r.zlibBufferFrame ≠ frame then
    match fseeko (r.dataoffset + r.frameRawPos frame) with
    | none => (false, r)
    | some pos => r.decompressFrame inflate frame (fread r.src pos (r.frameRawSize frame))
  else (true, r)

/-- `ReadFromFrame` to `dest + ofs`; `maxBytes` is not looked at. -/
def readFromFrame (r : CsoFileReader) (dest : Nat → UInt8) (ofs pos : Nat) (_maxBytes : Int) :
    Nat × (Nat → UInt8) × CsoFileReader :=
  if pos ≥ r.totalSize then (0, dest, r)
  else
    let frame := (pos >>> r.frameShift) % 2 ^ 32
    let offset := (((pos : Int) - ((frame <<< r.frameShift) % 2 ^ 32 : Nat)) % 2 ^ 32).toNat
    let bytes := min r.blocksize (r.frameSize - offset)
    if !r.compressed frame then
      match fseeko (r.dataoffset + r.frameRawPos frame + offset) with
      | none => (0, dest, r)
      | some rawPos =>
        let data := fread r.src rawPos bytes
        (data.length, store dest ofs data, r)
    else
      let (ok, r) := r.cacheFrame inflate frame
      if ok then (bytes, store dest ofs (load r.zlibBuffer offset bytes), r) else (0, dest, r)

/-- The loop of `ReadSync`. -/
def readLoop (r : CsoFileReader) (dest : Nat → UInt8) (pos bytes : Nat) (remaining : Int) :
    Nat × (Nat → UInt8) × CsoFileReader :=
  if remaining > 0 then
    let (readBytes, dest, r) := r.readFromFrame inflate dest bytes (pos + bytes) remaining
    if readBytes = 0 then (bytes, dest, r)
    else readLoop r dest pos (bytes + readBytes) (remaining - readBytes)
  else (bytes, dest, r)
termination_by remaining.toNat
decreasing_by omega

/-- `ReadSync`: the result, the buffer and the reader afterwards.  `count * m_blocksize` and
the sum of the pieces are `int`s. -/
def readSync (r : CsoFileReader) (dest : Nat → UInt8) (sector count : Nat) :
    Int × (Nat → UInt8) × CsoFileReader :=
  let res := r.readLoop inflate dest (sector * r.blocksize) 0 (toInt32 (count * r.blocksize))
  (toInt32 res.1, res.2)

/-- What is done with an open reader: block sizes are far below `2 ^ 31`. -/
inductive Step : CsoFileReader → CsoFileReader → Prop
  | setBlockSize (r : CsoFileReader) (bytes : Nat) : bytes < 2 ^ 31 → Step r (r.setBlockSize bytes)
  | readSync (r : CsoFileReader) (dest : Nat → UInt8) (sector count : Nat) :
      Step r (r.readSync inflate dest sector count).2.2

/-- `frames` is what the frames of the open file hold, all of them of the full size; a
compressed one fits the read buffer. -/
structure Valid (r : CsoFileReader) (frames : List (List UInt8)) : Prop where
  count : frames.length = (r.totalSize + r.frameSize - 1) / r.frameSize
  count_lt : frames.length + 1 < 2 ^ 32
  buffers : r.frameSize + 2 ^ r.indexShift < 2 ^ 32
  mono : ∀ k, k < frames.length → r.entry k ≤ r.entry (k + 1)
  fits : ∀ k, k < frames.length → r.compressed k →
    r.frameRawSize k ≤ max csoReadBufferSize (r.frameSize + 2 ^ r.indexShift)
  full : ∀ f ∈ frames, f.length = r.frameSize
  frame : ∀ k f, frames[k]? = some f →
    if r.compressed k then
      inflate (fread r.src (r.frameRawPos k) (r.frameRawSize k)) r.frameSize = (true, f)
    else fread r.src (r.frameRawPos k) r.frameSize = f

end

/-- The uncompressed image. -/
def image (r : CsoFileReader) (frames : List (List UInt8)) : List UInt8 :=
  frames.flatten.take r.totalSize

end CsoFileReader

end OmegaRed.CDVD

/-! What `CsoFileReader` reads out of a valid file. -/

namespace OmegaRed.CDVD

open Lib.Memory Lib.Pieces Lib.Blocks Relation

variable {inflate : List UInt8 → Nat → Bool × List UInt8} {frames : List (List UInt8)}

namespace CsoFileReader

theorem pow_frameShiftOf (k : Nat) : frameShiftOf (2 ^ k) = k := by
  induction k with
  | zero => rw [frameShiftOf, if_neg (by decide)]
  | succ k ih =>
    have hpos := Nat.two_pow_pos k
    have hhalf : 2 ^ (k + 1) >>> 1 = 2 ^ k := by
      rw [Nat.shiftRight_eq_div_pow, Nat.pow_succ, Nat.pow_one, Nat.mul_div_cancel _ (by decide)]
    rw [frameShiftOf, if_pos (by rw [Nat.pow_succ]; omega), hhalf, ih]

theorem pow_of_validateHeader {hdr : CsoHeader} (h : hdr.validateHeader) :
    2 ^ frameShiftOf hdr.frameSize = hdr.frameSize := by
  have hbits : hdr.frameSize &&& (hdr.frameSize - 1) = 0 ∧ 2048 ≤ hdr.frameSize := by
    simp only [CsoHeader.validateHeader] at h
    split at h
    · cases h
    · split at h
      · cases h
      · split at h
        · cases h
        · split at h
          · cases h
          · exact ⟨by omega, by omega⟩
  obtain ⟨k, hk⟩ := (Nat.and_sub_one_eq_zero_iff_isPowerOfTwo (by omega)).mp hbits.1
  rw [hk, pow_frameShiftOf]

/-- What holds of an open reader between two calls. -/
structure Ready (inflate : List UInt8 → Nat → Bool × List UInt8) (r : CsoFileReader)
    (frames : List (List UInt8)) : Prop where
  valid : r.Valid inflate frames
  pow : 2 ^ r.frameShift = r.frameSize
  dataoffset : r.dataoffset = 0
  blocksize : r.blocksize < 2 ^ 31
  cached : ∀ f, frames[r.zlibBufferFrame]? = some f → load r.zlibBuffer 0 r.frameSize = f

theorem Valid.numFrames {r : CsoFileReader} (h : r.Valid inflate frames)
    (hpos : 0 < r.frameSize) :
    (r.totalSize + r.frameSize - 1) % 2 ^ 64 / r.frameSize % 2 ^ 32 = frames.length := by
  have hlt := h.count_lt
  have hsize : r.frameSize < 2 ^ 32 := Nat.lt_of_le_of_lt (Nat.le_add_right _ _) h.buffers
  have hbytes : r.totalSize + r.frameSize - 1 < 2 ^ 64 := by
    have hdiv : (r.totalSize + r.frameSize - 1) / r.frameSize < 2 ^ 32 := by
      rw [← h.count]
      omega
    calc
      r.totalSize + r.frameSize - 1 < 2 ^ 32 * r.frameSize := Nat.lt_mul_of_div_lt hdiv hpos
      _ ≤ 2 ^ 32 * 2 ^ 32 := Nat.mul_le_mul_left _ hsize.le
      _ = 2 ^ 64 := by decide
  rw [Nat.mod_eq_of_lt hbytes, ← h.count, Nat.mod_eq_of_lt (by omega)]

theorem Ready.of_openFile {src : List UInt8} {zlibBuffer : Nat → UInt8} {r : CsoFileReader}
    (h : openFile src zlibBuffer = some r) (hvalid : r.Valid inflate frames) :
    Ready inflate r frames := by
  simp only [openFile] at h
  split at h
  · cases h
  · split at h
    · cases h
    · rename_i hhdr
      split at h
      · cases h
      · obtain rfl := Option.some.inj h
        have hblock : 2048 < 2 ^ 31 := by decide
        have hpow := pow_of_validateHeader (by simpa using hhdr)
        refine ⟨hvalid, hpow, rfl, hblock, ?_⟩
        intro f hf
        have hnum := hvalid.numFrames (hpow ▸ Nat.two_pow_pos _)
        dsimp only at hnum hf
        rw [hnum, List.getElem?_eq_none (Nat.le_refl _)] at hf
        cases hf

theorem Ready.frameSize_pos {r : CsoFileReader} (h : Ready inflate r frames) : 0 < r.frameSize :=
  h.pow ▸ Nat.two_pow_pos _

theorem Ready.frame {r : CsoFileReader} (h : Ready inflate r frames) {pos : Nat}
    (hpos : pos < r.totalSize) : ∃ f, frames[pos / r.frameSize]? = some f := by
  have hsize := h.frameSize_pos
  have hlt : pos / r.frameSize < frames.length := by
    rw [h.valid.count]
    have : pos / r.frameSize + 1 ≤ (r.totalSize + r.frameSize - 1) / r.frameSize := by
      rw [← Nat.add_div_right _ hsize]
      exact Nat.div_le_div_right (by omega)
    omega
  exact ⟨_, List.getElem?_eq_getElem hlt⟩

/-- The arithmetic of `ReadFromFrame`: the shift left wraps, the difference does not. -/
theorem Ready.offset {r : CsoFileReader} (h : Ready inflate r frames) {pos : Nat}
    (hpos : pos < r.totalSize) :
    (pos >>> r.frameShift) % 2 ^ 32 = pos / r.frameSize ∧
      (((pos : Int) - (((pos / r.frameSize) <<< r.frameShift) % 2 ^ 32 : Nat)) % 2 ^ 32).toNat =
        pos % r.frameSize := by
  obtain ⟨f, hf⟩ := h.frame hpos
  have hlt : pos / r.frameSize < frames.length := (List.getElem?_eq_some_iff.mp hf).1
  have hcount := h.valid.count_lt
  have hsize : r.frameSize < 2 ^ 32 := Nat.lt_of_le_of_lt (Nat.le_add_right _ _) h.valid.buffers
  have hmod : pos % r.frameSize < r.frameSize := Nat.mod_lt _ h.frameSize_pos
  have hsplit := Nat.div_add_mod pos r.frameSize
  constructor
  · rw [Nat.shiftRight_eq_div_pow, h.pow, Nat.mod_eq_of_lt (by omega)]
  · rw [Nat.shiftLeft_eq, h.pow, Nat.mul_comm]
    have hcongr : ((pos : Int) - ((r.frameSize * (pos / r.frameSize)) % 2 ^ 32 : Nat)) % 2 ^ 32 =
        (pos % r.frameSize : Nat) := by
      omega
    rw [hcongr]
    rfl

/-- What no read changes. -/
structure SameFile (r r' : CsoFileReader) : Prop where
  blocksize : r'.blocksize = r.blocksize
  frameSize : r'.frameSize = r.frameSize
  totalSize : r'.totalSize = r.totalSize

theorem SameFile.refl (r : CsoFileReader) : SameFile r r := ⟨rfl, rfl, rfl⟩

theorem SameFile.trans {r r' r'' : CsoFileReader} (h : SameFile r r') (h' : SameFile r' r'') :
    SameFile r r'' :=
  ⟨h'.blocksize.trans h.blocksize, h'.frameSize.trans h.frameSize, h'.totalSize.trans h.totalSize⟩

theorem Ready.cacheFrame {r : CsoFileReader} (h : Ready inflate r frames) {k : Nat}
    {f : List UInt8} (hf : frames[k]? = some f) (hcomp : r.compressed k = true) :
    ∃ r', r.cacheFrame inflate k = (true, r') ∧ load r'.zlibBuffer 0 r.frameSize = f ∧
      Ready inflate r' frames ∧ SameFile r r' := by
  by_cases hk : r.zlibBufferFrame = k
  · refine ⟨r, ?_, h.cached f (hk ▸ hf), h, .refl r⟩
    rw [CsoFileReader.cacheFrame, if_neg (not_not_intro hk)]
  · have hfull : f.length = r.frameSize := h.valid.full f (List.mem_of_getElem? hf)
    have hinflate := h.valid.frame k f hf
    rw [if_pos hcomp] at hinflate
    have hload : load (store r.zlibBuffer 0 f) 0 r.frameSize = f := by
      rw [← hfull]
      exact load_store_self _ _ _
    refine ⟨{ r with zlibBuffer := store r.zlibBuffer 0 f, zlibBufferFrame := k }, ?_, hload,
      ⟨⟨h.valid.count, h.valid.count_lt, h.valid.buffers, h.valid.mono, h.valid.fits,
        h.valid.full, h.valid.frame⟩, h.pow, h.dataoffset, h.blocksize, ?_⟩, ⟨rfl, rfl, rfl⟩⟩
    · have hseek : fseeko (r.dataoffset + r.frameRawPos k) = some (r.frameRawPos k) :=
        fseeko_of_nonneg (by rw [h.dataoffset, Int.zero_add])
      rw [CsoFileReader.cacheFrame, if_pos hk, hseek]
      simp only [decompressFrame, hinflate, hfull, Bool.true_and, decide_true, if_true]
    · intro f' hf'
      obtain rfl : f = f' := Option.some.inj (hf.symm.trans hf')
      exact hload

theorem Ready.readFromFrame {r : CsoFileReader} (h : Ready inflate r frames)
    (dest : Nat → UInt8) (ofs : Nat) {pos : Nat} (hpos : pos < r.totalSize) (maxBytes : Int) :
    ∃ r', r.readFromFrame inflate dest ofs pos maxBytes =
        (next r.frameSize r.blocksize pos - pos,
          store dest ofs (fread frames.flatten pos (next r.frameSize r.blocksize pos - pos)), r') ∧
      (fread frames.flatten pos (next r.frameSize r.blocksize pos - pos)).length =
        next r.frameSize r.blocksize pos - pos ∧
      Ready inflate r' frames ∧ SameFile r r' := by
  obtain ⟨f, hf⟩ := h.frame hpos
  obtain ⟨hframe, hoffset⟩ := h.offset hpos
  have hfull : f.length = r.frameSize := h.valid.full f (List.mem_of_getElem? hf)
  have hmod : pos % r.frameSize < r.frameSize := Nat.mod_lt _ h.frameSize_pos
  have hbytes : next r.frameSize r.blocksize pos - pos =
      min r.blocksize (r.frameSize - pos % r.frameSize) := by
    rw [next, Nat.add_sub_cancel_left]
  have hpiece : fread frames.flatten pos (next r.frameSize r.blocksize pos - pos) =
      (f.drop (pos % r.frameSize)).take (next r.frameSize r.blocksize pos - pos) := by
    rw [← slice_flatten h.valid.full hf (by omega), Nat.mul_comm, Nat.div_add_mod, fread]
  have hlen : (fread frames.flatten pos (next r.frameSize r.blocksize pos - pos)).length =
      next r.frameSize r.blocksize pos - pos := by
    rw [hpiece, List.length_take, List.length_drop, hfull]
    omega
  rw [CsoFileReader.readFromFrame, if_neg (by omega)]
  simp only [hframe, hoffset, ← hbytes]
  by_cases hcomp : r.compressed (pos / r.frameSize)
  · obtain ⟨r', hcache, hload, hready, hsame⟩ := h.cacheFrame hf hcomp
    refine ⟨r', ?_, hlen, hready, hsame⟩
    rw [hpiece, ← hload, take_drop_load _ _ (by omega), Nat.zero_add]
    simp only [hcomp, Bool.not_true, Bool.false_eq_true, if_false, hcache, if_true]
  · have hstored := h.valid.frame _ f hf
    rw [if_neg hcomp] at hstored
    have hdata : fread r.src (r.frameRawPos (pos / r.frameSize) + pos % r.frameSize)
        (next r.frameSize r.blocksize pos - pos) =
          fread frames.flatten pos (next r.frameSize r.blocksize pos - pos) := by
      rw [hpiece, ← hstored]
      exact (fread_fread _ _ (by omega)).symm
    refine ⟨r, ?_, hlen, h, .refl r⟩
    have hseek : fseeko (r.dataoffset + r.frameRawPos (pos / r.frameSize) +
        (pos % r.frameSize : Nat)) =
          some (r.frameRawPos (pos / r.frameSize) + pos % r.frameSize) :=
      fseeko_of_nonneg (by rw [h.dataoffset, Int.zero_add, Nat.cast_add])
    simp only [hcomp, Bool.not_false, if_true, hseek, hdata, hlen]

/-- The loop of `ReadSync` goes from piece to piece until the request or the image ends. -/
theorem Ready.readLoop {r : CsoFileReader} (h : Ready inflate r frames) (hblock : 0 < r.blocksize)
    (dest : Nat → UInt8) (pos bytes : Nat) (remaining : Int) :
    ∃ n r', r.readLoop inflate dest pos bytes remaining =
        (bytes + n, store dest bytes (fread frames.flatten (pos + bytes) n), r') ∧
      pos + bytes + n = last r.frameSize r.blocksize
        (min (pos + bytes + remaining.toNat) r.totalSize) (pos + bytes) ∧
      (fread frames.flatten (pos + bytes) n).length = n ∧
      Ready inflate r' frames ∧ SameFile r r' := by
  have hstay (hstop : min (pos + bytes + remaining.toNat) r.totalSize ≤ pos + bytes)
      (heq : r.readLoop inflate dest pos bytes remaining = (bytes, dest, r)) :
      ∃ n r', r.readLoop inflate dest pos bytes remaining =
          (bytes + n, store dest bytes (fread frames.flatten (pos + bytes) n), r') ∧
        pos + bytes + n = last r.frameSize r.blocksize
          (min (pos + bytes + remaining.toNat) r.totalSize) (pos + bytes) ∧
        (fread frames.flatten (pos + bytes) n).length = n ∧
        Ready inflate r' frames ∧ SameFile r r' := by
    have hnil : fread frames.flatten (pos + bytes) 0 = [] := List.take_zero
    refine ⟨0, r, ?_, ?_, ?_, h, .refl r⟩
    · rw [hnil, store_nil, heq]
      rfl
    · rw [last_of_le hstop, Nat.add_zero]
    · rw [hnil]
      rfl
  by_cases hrem : remaining > 0
  · by_cases hend : pos + bytes < r.totalSize
    · obtain ⟨r₁, hread, hlen₁, hready₁, hsame₁⟩ := h.readFromFrame dest bytes hend remaining
      have hnext := lt_next h.frameSize_pos hblock (pos + bytes)
      obtain ⟨b, hb⟩ := Nat.exists_eq_add_of_le hnext.le
      rw [hb, Nat.add_sub_cancel_left] at hread hlen₁
      have hpos : 0 < b := by omega
      obtain ⟨n, r₂, hloop, hlast, hlen₂, hready₂, hsame₂⟩ :=
        hready₁.readLoop (hsame₁.blocksize ▸ hblock)
          (store dest bytes (fread frames.flatten (pos + bytes) b)) pos (bytes + b) (remaining - b)
      rw [← Nat.add_assoc] at hloop hlast hlen₂
      refine ⟨b + n, r₂, ?_, ?_, ?_, hready₂, hsame₁.trans hsame₂⟩
      · rw [CsoFileReader.readLoop, if_pos hrem, hread]
        dsimp only
        rw [if_neg (by omega), hloop, fread_add, ← store_append, hlen₁, Nat.add_assoc]
      · rw [hsame₁.frameSize, hsame₁.blocksize, hsame₁.totalSize] at hlast
        rw [last_of_lt h.frameSize_pos hblock (by omega), hb, ← Nat.add_assoc, hlast]
        by_cases hle : b ≤ remaining.toNat
        · congr 2
          omega
        · rw [last_of_le (by omega), last_of_le (by omega)]
      · rw [fread_add, List.length_append, hlen₁, hlen₂]
    · refine hstay (by omega) ?_
      rw [CsoFileReader.readLoop, if_pos hrem, CsoFileReader.readFromFrame, if_pos (by omega)]
      rfl
  · refine hstay (by omega) ?_
    rw [CsoFileReader.readLoop, if_neg hrem]
termination_by remaining.toNat
decreasing_by omega

theorem Ready.totalSize_le {r : CsoFileReader} (h : Ready inflate r frames) :
    r.totalSize ≤ frames.flatten.length := by
  have hsplit := Nat.div_add_mod (r.totalSize + r.frameSize - 1) r.frameSize
  have hmod := Nat.mod_lt (r.totalSize + r.frameSize - 1) h.frameSize_pos
  rw [length_flatten h.valid.full, h.valid.count, Nat.mul_comm]
  omega

/-- The request ends with a piece of `ReadFromFrame`, at the end of the slice. -/
def WholePieces (frameSize blocksize total sector count : Nat) : Prop :=
  let pos := sector * blocksize
  let n := count * blocksize
  let stop := min (pos + n) total
  n = 0 ∨ total ≤ pos ∨
    0 < toInt32 n ∧ stop - pos < 2 ^ 31 ∧ Cut frameSize blocksize pos stop ∧
      ∀ y, pos + (toInt32 n).toNat ≤ y → y < stop → ¬ Cut frameSize blocksize pos y

theorem Ready.readSync {r : CsoFileReader} (h : Ready inflate r frames) (dest : Nat → UInt8)
    (sector count : Nat) :
    ∃ n r', r.readSync inflate dest sector count =
        (toInt32 n, store dest 0 (fread frames.flatten (sector * r.blocksize) n), r') ∧
      sector * r.blocksize + n = last r.frameSize r.blocksize
        (min (sector * r.blocksize + (toInt32 (count * r.blocksize)).toNat) r.totalSize)
        (sector * r.blocksize) ∧
      (fread frames.flatten (sector * r.blocksize) n).length = n ∧
      Ready inflate r' frames ∧ SameFile r r' := by
  by_cases hblock : 0 < r.blocksize
  · obtain ⟨n, r', hread, hlast, hlen, hready, hsame⟩ :=
      h.readLoop hblock dest (sector * r.blocksize) 0 (toInt32 (count * r.blocksize))
    rw [Nat.zero_add, Nat.add_zero] at hread
    rw [Nat.add_zero] at hlast hlen
    refine ⟨n, r', ?_, hlast, hlen, hready, hsame⟩
    rw [CsoFileReader.readSync, hread]
  · have hblock : r.blocksize = 0 := by omega
    have hnil : fread frames.flatten (sector * r.blocksize) 0 = [] := List.take_zero
    have hsize : toInt32 (count * r.blocksize) = 0 := by
      rw [hblock, Nat.mul_zero, toInt32_of_lt (by decide), Nat.cast_zero]
    refine ⟨0, r, ?_, ?_, ?_, h, .refl r⟩
    · rw [CsoFileReader.readSync, hnil, store_nil, hsize, CsoFileReader.readLoop,
        if_neg (by decide)]
    · rw [hsize, Int.toNat_zero, Nat.add_zero, last_of_le (Nat.min_le_left _ _)]
    · rw [hnil]
      rfl

/-- The loop stops where the slice does: `size` is what is left of `n` in an `int`. -/
theorem last_eq_max_iff {frameSize step pos n total : Nat} {size : Int} (hframe : 0 < frameSize)
    (hstep : step = 0 → n = 0) (hsize : size.toNat ≤ n) :
    last frameSize step (min (pos + size.toNat) total) pos = max pos (min (pos + n) total) ↔
      n = 0 ∨ total ≤ pos ∨ 0 < size ∧ Cut frameSize step pos (min (pos + n) total) ∧
        ∀ y, pos + size.toNat ≤ y → y < min (pos + n) total → ¬ Cut frameSize step pos y := by
  by_cases hout : n = 0 ∨ total ≤ pos
  · rw [last_of_le (by omega)]
    exact ⟨fun _ => by omega, fun _ => by omega⟩
  · have hmax : max pos (min (pos + n) total) = min (pos + n) total := by omega
    have hstep : 0 < step := Nat.pos_of_ne_zero fun hzero => hout (.inl (hstep hzero))
    rw [hmax, ← or_assoc, or_iff_right hout]
    by_cases hpos : 0 < size
    · rw [last_eq_iff hframe hstep (by omega) (by omega)]
      exact ⟨fun ⟨hcut, hmin⟩ => ⟨hpos, hcut, fun y hy hlt => hmin y (by omega) hlt⟩,
        fun ⟨_, hcut, hmin⟩ => ⟨hcut, fun y hy hlt => hmin y (by omega) hlt⟩⟩
    · rw [last_of_le (by omega)]
      exact ⟨fun heq => absurd heq (by omega), fun ⟨hpos', _⟩ => absurd hpos' hpos⟩

theorem Ready.slice_iff {r : CsoFileReader} (h : Ready inflate r frames) (dest : Nat → UInt8)
    (sector count : Nat) :
    Slice (r.image frames) (sector * r.blocksize) (count * r.blocksize) dest
        (r.readSync inflate dest sector count).2.1 (r.readSync inflate dest sector count).1 ↔
      WholePieces r.frameSize r.blocksize r.totalSize sector count := by
  obtain ⟨n, r', hread, hlast, hlen, -⟩ := h.readSync dest sector count
  have hstep (hzero : r.blocksize = 0) : count * r.blocksize = 0 := by rw [hzero, Nat.mul_zero]
  obtain ⟨hsize, hsize_lt⟩ := toNat_toInt32_le (count * r.blocksize)
  have hint : n < 2 ^ 32 := by
    have hblock := h.blocksize
    by_cases hstop : min (sector * r.blocksize + (toInt32 (count * r.blocksize)).toNat)
        r.totalSize ≤ sector * r.blocksize
    · rw [last_of_le hstop] at hlast
      omega
    · have hpos : 0 < r.blocksize := by
        refine Nat.pos_of_ne_zero fun hzero => hstop ?_
        have := hstep hzero
        omega
      have := last_lt h.frameSize_pos hpos (Nat.lt_of_not_le hstop)
      omega
  have hiff : sector * r.blocksize + n = max (sector * r.blocksize)
      (min (sector * r.blocksize + count * r.blocksize) r.totalSize) ↔ _ :=
    hlast ▸ last_eq_max_iff h.frameSize_pos hstep hsize
  rw [hread, image, slice_store_iff h.totalSize_le hlen hint]
  constructor
  · rintro ⟨hlt, heq⟩
    obtain hempty | hout | ⟨hpos, hcut⟩ := hiff.mp heq
    · exact .inl hempty
    · exact .inr (.inl hout)
    · exact .inr (.inr ⟨hpos, by omega, hcut⟩)
  · rintro (hempty | hout | ⟨hpos, hstop, hcut⟩)
    · have heq := hiff.mpr (.inl hempty)
      exact ⟨by omega, heq⟩
    · have heq := hiff.mpr (.inr (.inl hout))
      exact ⟨by omega, heq⟩
    · have heq := hiff.mpr (.inr (.inr ⟨hpos, hcut⟩))
      exact ⟨by omega, heq⟩

theorem Ready.step {r r' : CsoFileReader} (h : Ready inflate r frames) (hst : Step inflate r r') :
    Ready inflate r' frames ∧ r'.frameSize = r.frameSize ∧ r'.totalSize = r.totalSize := by
  cases hst with
  | setBlockSize bytes hbytes =>
    exact ⟨⟨⟨h.valid.count, h.valid.count_lt, h.valid.buffers, h.valid.mono, h.valid.fits,
      h.valid.full, h.valid.frame⟩, h.pow, h.dataoffset, hbytes, h.cached⟩, rfl, rfl⟩
  | readSync dest sector count =>
    obtain ⟨n, r', hread, -, -, hready, hsame⟩ := h.readSync dest sector count
    rw [hread]
    exact ⟨hready, hsame.frameSize, hsame.totalSize⟩

end CsoFileReader

open CsoFileReader

/-- The header of an image of two frames of 2048 bytes, and its index: both are stored. -/
def storedHeader : List UInt8 :=
  [0x43, 0x49, 0x53, 0x4f, 0x18, 0, 0, 0, 0, 0x10, 0, 0, 0, 0, 0, 0, 0, 0x08, 0, 0, 1, 0, 0, 0,
    36, 0, 0, 0x80, 36, 8, 0, 0x80, 36, 16, 0, 0x80]

def storedFrame : List UInt8 := List.replicate 2048 0

def storedFile : List UInt8 := storedHeader ++ (storedFrame ++ storedFrame)

theorem fread_storedFile {pos n : Nat} (h : pos + n ≤ 36) :
    fread storedFile pos n = fread storedHeader pos n := by
  rw [storedFile, fread, fread, List.drop_append_of_le_length, List.take_append_of_le_length]
  · rw [List.length_drop]
    exact Nat.le_sub_of_add_le (Nat.add_comm n pos ▸ h)
  · exact Nat.le_trans (Nat.le_add_right _ _) h

/-- The reader that has it open. -/
def storedReader : CsoFileReader where
  frameSize := 2048
  frameShift := 11
  indexShift := 0
  zlibBuffer := fun _ => 0
  zlibBufferFrame := 2
  index := [0x80000024, 0x80000824, 0x80001024]
  totalSize := 4096
  src := storedFile
  blocksize := 2048
  dataoffset := 0

theorem openFile_storedFile : openFile storedFile (fun _ => 0) = some storedReader := by
  have hhdr : fread storedFile 0 24 = fread storedHeader 0 24 := fread_storedFile (by decide)
  have hindex : fread storedFile 24 12 = fread storedHeader 24 12 := fread_storedFile (by decide)
  have hlen : (fread storedHeader 0 24).length = 24 := by decide
  have hread : CsoHeader.read (fread storedHeader 0 24) =
      ⟨CsoHeader.cisoMagic, 4096, 2048, 1, 0⟩ := by decide
  have hvalid : CsoHeader.validateHeader ⟨CsoHeader.cisoMagic, 4096, 2048, 1, 0⟩ = true := by
    decide
  have hsize : 4 * (((4096 + 2048 - 1) % 2 ^ 64 / 2048 % 2 ^ 32 + 1) % 2 ^ 32) = 12 := by decide
  have hshift : frameShiftOf 2048 = 11 := pow_frameShiftOf 11
  simp only [openFile, hhdr, hread, hsize, hindex]
  rw [if_neg (by simp [hlen]), if_neg (by simp [hvalid]), if_neg (by decide), hshift]
  rfl

theorem valid_storedReader (inflate : List UInt8 → Nat → Bool × List UInt8) :
    storedReader.Valid inflate [storedFrame, storedFrame] := by
  have hlen : storedFrame.length = 2048 := List.length_replicate
  have hhdr : storedHeader.length = 36 := rfl
  have hfirst : fread storedFile 36 2048 = storedFrame := by
    rw [storedFile, fread, List.drop_left' hhdr, List.take_left' hlen]
  have hsecond : fread storedFile 2084 2048 = storedFrame := by
    rw [storedFile, ← List.append_assoc, fread, List.drop_left', ← hlen, List.take_length]
    rw [List.length_append, hlen, hhdr]
  have hstored : storedReader.compressed 0 = false ∧ storedReader.compressed 1 = false := by decide
  constructor
  · rfl
  · decide
  · decide
  · decide
  · intro k hk hcomp
    obtain rfl | rfl : k = 0 ∨ k = 1 := by
      have : k < 2 := hk
      omega
    · rw [hstored.1] at hcomp
      cases hcomp
    · rw [hstored.2] at hcomp
      cases hcomp
  · intro f hf
    have : f = storedFrame := by simpa using hf
    rw [this, hlen]
    rfl
  · intro k f hf
    obtain hk | hk | hk : k = 0 ∨ k = 1 ∨ 2 ≤ k := by omega
    · rw [hk] at hf ⊢
      rw [hstored.1, if_neg (by decide)]
      exact hfirst.trans (Option.some.inj hf)
    · rw [hk] at hf ⊢
      rw [hstored.2, if_neg (by decide)]
      exact hsecond.trans (Option.some.inj hf)
    · rw [List.getElem?_eq_none (by simpa using hk)] at hf
      exact absurd hf (by simp)

end OmegaRed.CDVD
