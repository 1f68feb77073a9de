import Mathlib.Algebra.Order.Group.Nat
import OmegaRed.Lib.Memory
import OmegaRed.Lib.Words

/-! Reading a file of an ISO image as a stream, a sector at a time. -/

namespace OmegaRed.CDVD.IsoFS

open Lib Lib.Memory

def sectorLength : Nat := 2048

/-- A `SectorSource`: the bytes of each sector. -/
abbrev SectorSource := UInt32 → Nat → UInt8

structure FileDate where
  year : Nat
  month : UInt8
  day : UInt8
  hour : UInt8
  minute : UInt8
  second : UInt8
  gmtOffset : UInt8

structure IsoFileDescriptor where
  date : FileDate
  lba : UInt32
  size : UInt32
  flags : UInt8
  name : List Char

/-- `sectors` are the sectors that have been asked for, the last one first; nothing reads them. -/
structure IsoFile where
  internalReader : SectorSource
  currentOffset : Nat
  maxOffset : Nat
  currentSectorNumber : UInt32
  currentSector : Nat → UInt8
  sectorOffset : Nat
  sectors : List UInt32

namespace IsoFile

def readSector (f : IsoFile) (n : UInt32) : IsoFile :=
  { f with currentSectorNumber := n, currentSector := f.internalReader n, sectors := n :: f.sectors }

def init (reader : SectorSource) (entry : IsoFileDescriptor) : IsoFile :=
  let f : IsoFile := ⟨reader, 0, entry.size.toNat, entry.lba, fun _ => 0, 0, []⟩
  if 0 < entry.size.toNat then f.readSector entry.lba else f

def makeDataAvailable (f : IsoFile) : IsoFile :=
  if sectorLength ≤ f.sectorOffset then
    { f.readSector (f.currentSectorNumber + 1) with sectorOffset := f.sectorOffset - sectorLength }
  else f

/-- `none` is `EndOfStream`. -/
def readByte (f : IsoFile) : Option (UInt8 × IsoFile) :=
  if f.maxOffset ≤ f.currentOffset then none
  else
    let f := f.makeDataAvailable
    some (f.currentSector f.sectorOffset,
      { f with currentOffset := f.currentOffset + 1, sectorOffset := f.sectorOffset + 1 })

/-- The offsets are `u32`: what is left of the file wraps when the offset is over its end. -/
def internalRead (f : IsoFile) (len : Nat) : List UInt8 × IsoFile :=
  let slen := min len ((f.maxOffset + 2 ^ 32 - f.currentOffset) % 2 ^ 32)
  (load f.currentSector f.sectorOffset slen,
    { f with
      sectorOffset := f.sectorOffset + slen
      currentOffset := (f.currentOffset + slen) % 2 ^ 32 })

/-- The loop of `read` over whole sectors: what is left to read, and what was read. -/
def readSectors : Nat → IsoFile → Nat → Nat × List UInt8 × IsoFile
  | 0, f, len => (len, [], f)
  | fuel + 1, f, len =>
    if sectorLength ≤ len ∧ f.currentOffset < f.maxOffset then
      let (data, f) := f.makeDataAvailable.internalRead sectorLength
      let (len, rest, f) := readSectors fuel f (len - data.length)
      (len, data ++ rest, f)
    else (len, [], f)

def read (f : IsoFile) (len : Nat) : List UInt8 × IsoFile :=
  if len = 0 then ([], f)
  else
    let (first, f) := f.internalRead (min len (sectorLength - f.sectorOffset))
    let len := len - first.length
    let (len, whole, f) := readSectors len f len
    if 0 < len then
      let (last, f) := f.makeDataAvailable.internalRead len
      (first ++ whole ++ last, f)
    else (first ++ whole, f)

end IsoFile

/-- Byte `i` of the extent that an entry names. -/
def extent (reader : SectorSource) (entry : IsoFileDescriptor) (i : Nat) : UInt8 :=
  reader (entry.lba + .ofNat (i / sectorLength)) (i % sectorLength)

/-- The sectors asked for are ones of the extent. -/
def InExtent (entry : IsoFileDescriptor) (sectors : List UInt32) : Prop :=
  ∀ n ∈ sectors, ∃ k, sectorLength * k < entry.size.toNat ∧ n = entry.lba + .ofNat k

/-- The stream stands at byte `pos` of the extent. -/
structure At (reader : SectorSource) (entry : IsoFileDescriptor) (pos : Nat) (f : IsoFile) :
    Prop where
  reader_eq : f.internalReader = reader
  max_eq : f.maxOffset = entry.size.toNat
  offset_eq : f.currentOffset = pos
  le : pos ≤ entry.size.toNat
  sectors : InExtent entry f.sectors
  here : ∃ k, f.currentSectorNumber = entry.lba + .ofNat k ∧
    (0 < entry.size.toNat → f.currentSector = reader (entry.lba + .ofNat k)) ∧
    pos = sectorLength * k + f.sectorOffset ∧ f.sectorOffset ≤ sectorLength

namespace At

variable {reader : SectorSource} {entry : IsoFileDescriptor} {pos : Nat} {f : IsoFile}

theorem init (reader : SectorSource) (entry : IsoFileDescriptor) :
    At reader entry 0 (IsoFile.init reader entry) := by
  have hlba : entry.lba = entry.lba + .ofNat 0 := (UInt32.add_zero _).symm
  rw [IsoFile.init]
  split
  · rename_i hsize
    refine ⟨rfl, rfl, rfl, Nat.zero_le _, ?_, 0, hlba, fun _ => congrArg reader hlba, rfl,
      Nat.zero_le _⟩
    intro n hn
    exact ⟨0, hsize, (List.mem_singleton.mp hn).trans hlba⟩
  · rename_i hsize
    refine ⟨rfl, rfl, rfl, Nat.zero_le _, ?_, 0, hlba, fun h => absurd h hsize, rfl,
      Nat.zero_le _⟩
    intro n hn
    cases hn

theorem makeDataAvailable (h : At reader entry pos f) (hpos : pos < entry.size.toNat) :
    At reader entry pos f.makeDataAvailable ∧ f.makeDataAvailable.sectorOffset < sectorLength := by
  obtain ⟨k, hnumber, hsector, hk, hle⟩ := h.here
  rw [IsoFile.makeDataAvailable]
  split
  · rename_i hge
    have hnext : f.currentSectorNumber + 1 = entry.lba + .ofNat (k + 1) := by
      rw [hnumber, UInt32.add_assoc, UInt32.ofNat_add]
      rfl
    refine ⟨⟨h.reader_eq, h.max_eq, h.offset_eq, h.le, ?_, k + 1, hnext, fun _ => ?_, ?_, ?_⟩, ?_⟩
    · intro n hn
      rcases List.mem_cons.mp hn with rfl | hn
      · exact ⟨k + 1, by rw [Nat.mul_succ]; omega, hnext⟩
      · exact h.sectors n hn
    · change f.internalReader (f.currentSectorNumber + 1) = _
      rw [h.reader_eq, hnext]
    · simp only [Nat.mul_succ]
      omega
    · simp only
      omega
    · simp only [sectorLength] at hle hge ⊢
      omega
  · rename_i hlt
    exact ⟨h, Nat.lt_of_not_le hlt⟩

theorem load_currentSector (h : At reader entry pos f) (hsize : 0 < entry.size.toNat) {n : Nat}
    (hn : f.sectorOffset + n ≤ sectorLength) :
    load f.currentSector f.sectorOffset n = load (extent reader entry) pos n := by
  obtain ⟨k, hnumber, hsector, hk, hle⟩ := h.here
  rw [hsector hsize]
  apply List.map_congr_left
  intro i hi
  have hlt : f.sectorOffset + i < sectorLength := by
    have := List.mem_range.mp hi
    omega
  have hpos : pos + i = sectorLength * k + (f.sectorOffset + i) := by omega
  rw [extent, hpos, Nat.mul_add_div (by decide), Nat.mul_add_mod, Nat.div_eq_of_lt hlt,
    Nat.mod_eq_of_lt hlt]
  rfl

theorem readByte (h : At reader entry pos f) (hpos : pos < entry.size.toNat) :
    ∃ f', f.readByte = some (extent reader entry pos, f') ∧ At reader entry (pos + 1) f' ∧
      0 < f'.sectorOffset := by
  obtain ⟨hmake, hlt⟩ := h.makeDataAvailable hpos
  have hload := hmake.load_currentSector (by omega) (show _ + 1 ≤ sectorLength by omega)
  obtain ⟨k, hnumber, hsector, hk, _⟩ := hmake.here
  have hoffset := hmake.offset_eq
  rw [IsoFile.readByte, if_neg (by rw [h.max_eq, h.offset_eq]; omega)]
  refine ⟨{ f.makeDataAvailable with
    currentOffset := f.makeDataAvailable.currentOffset + 1
    sectorOffset := f.makeDataAvailable.sectorOffset + 1 }, ?_, ?_, Nat.succ_pos _⟩
  · exact congrArg some (congrArg (·, _) (List.singleton_inj.mp hload))
  · exact ⟨hmake.reader_eq, hmake.max_eq, by simp only; omega, hpos, hmake.sectors, k, hnumber,
      hsector, by simp only; omega, hlt⟩

theorem max_lt (h : At reader entry pos f) : f.maxOffset < 2 ^ 32 := by
  rw [h.max_eq]
  exact entry.size.toNat_lt

theorem left_eq (h : At reader entry pos f) :
    (f.maxOffset + 2 ^ 32 - f.currentOffset) % 2 ^ 32 = entry.size.toNat - pos := by
  have hle := h.le
  have hsize := entry.size.toNat_lt
  rw [h.max_eq, h.offset_eq]
  omega

theorem internalRead (h : At reader entry pos f) (hsize : 0 < entry.size.toNat) {n : Nat}
    (hn : f.sectorOffset + n ≤ sectorLength) (hfit : pos + n ≤ entry.size.toNat) :
    (f.internalRead n).1 = load (extent reader entry) pos n ∧
      At reader entry (pos + n) (f.internalRead n).2 := by
  have hmin : min n ((f.maxOffset + 2 ^ 32 - f.currentOffset) % 2 ^ 32) = n := by
    rw [h.left_eq]
    omega
  have hoffset : (f.currentOffset + n) % 2 ^ 32 = pos + n := by
    have hlt := entry.size.toNat_lt
    rw [h.offset_eq, Nat.mod_eq_of_lt (by omega)]
  obtain ⟨k, hnumber, hsector, hk, _⟩ := h.here
  simp only [IsoFile.internalRead, hmin]
  refine ⟨h.load_currentSector hsize hn, h.reader_eq, h.max_eq, hoffset, hfit,
    h.sectors, k, hnumber, hsector, by simp only; omega, hn⟩

theorem readSectors_of_lt {fuel n : Nat} (hn : n < sectorLength) (f : IsoFile) :
    IsoFile.readSectors fuel f n = (n, [], f) := by
  cases fuel with
  | zero => rfl
  | succ fuel => rw [IsoFile.readSectors, if_neg (by omega)]

theorem sectorOffset_eq (h : At reader entry pos f) (hlt : f.sectorOffset < sectorLength) :
    f.sectorOffset = pos % sectorLength := by
  obtain ⟨k, _, _, hk, _⟩ := h.here
  rw [hk, Nat.mul_add_mod, Nat.mod_eq_of_lt hlt]

theorem mod_of_end (h : At reader entry pos f) (hend : f.sectorOffset = sectorLength) :
    pos % sectorLength = 0 := by
  obtain ⟨k, _, _, hk, _⟩ := h.here
  rw [hk, hend, Nat.mul_add_mod, Nat.mod_self]

theorem read (h : At reader entry pos f) {n : Nat} (hn : n < sectorLength)
    (hfit : pos + n ≤ entry.size.toNat) :
    (f.read n).1 = load (extent reader entry) pos n ∧ At reader entry (pos + n) (f.read n).2 := by
  rw [IsoFile.read]
  split
  · rename_i hzero
    rw [hzero]
    exact ⟨rfl, h⟩
  · have hle := h.here.choose_spec.2.2.2
    obtain ⟨hfirst, hat⟩ := h.internalRead (by omega)
      (show f.sectorOffset + min n (sectorLength - f.sectorOffset) ≤ sectorLength by omega)
      (by omega)
    have hlen := congrArg List.length hfirst
    have hoffset : (f.internalRead (min n (sectorLength - f.sectorOffset))).2.sectorOffset =
        f.sectorOffset + (f.internalRead (min n (sectorLength - f.sectorOffset))).1.length := by
      simp only [IsoFile.internalRead, length_load]
    rw [length_load] at hlen
    generalize f.internalRead (min n (sectorLength - f.sectorOffset)) = first at *
    obtain ⟨data, g⟩ := first
    simp only at hfirst hat hlen hoffset ⊢
    rw [readSectors_of_lt (by omega)]
    simp only [hlen]
    split
    · rename_i hmore
      have hend : g.sectorOffset = sectorLength := by omega
      have hmod := hat.mod_of_end hend
      obtain ⟨hmake, hlt⟩ := hat.makeDataAvailable (by omega)
      have hzero := (hmake.sectorOffset_eq hlt).trans hmod
      obtain ⟨hlast, hdone⟩ := hmake.internalRead (by omega)
        (show _ + (n - min n (sectorLength - f.sectorOffset)) ≤ sectorLength by omega) (by omega)
      have hsum : min n (sectorLength - f.sectorOffset) +
          (n - min n (sectorLength - f.sectorOffset)) = n := by omega
      rw [hfirst, hlast, List.append_nil, ← load_add, hsum]
      rw [Nat.add_assoc, hsum] at hdone
      exact ⟨rfl, hdone⟩
    · have hall : min n (sectorLength - f.sectorOffset) = n := by omega
      rw [hall] at hfirst hat
      rw [List.append_nil]
      exact ⟨hfirst, hat⟩

theorem ofNat_add_ne {a : UInt32} {j k : Nat} (hj : j < 2 ^ 32) (hk : k < 2 ^ 32) (h : j ≠ k) :
    a + .ofNat j ≠ a + .ofNat k := by
  intro heq
  have hsame := congrArg UInt32.toNat (UInt32.add_right_inj _ |>.mp heq)
  rw [UInt32.toNat_ofNat', UInt32.toNat_ofNat', Nat.mod_eq_of_lt hj, Nat.mod_eq_of_lt hk] at hsame
  exact h hsame

theorem internalRead_over (h : At reader entry pos f) {n : Nat}
    (hover : entry.size.toNat ≤ pos + n) :
    f.internalRead n = f.internalRead (entry.size.toNat - pos) := by
  rw [IsoFile.internalRead, IsoFile.internalRead, h.left_eq, Nat.min_self,
    Nat.min_eq_right (by omega)]

theorem internalRead_of_max {f : IsoFile} (h : f.maxOffset = f.currentOffset)
    (hlt : f.maxOffset < 2 ^ 32) (n : Nat) : f.internalRead n = ([], f) := by
  have hmin : min n ((f.maxOffset + 2 ^ 32 - f.currentOffset) % 2 ^ 32) = 0 := by
    rw [h, Nat.add_sub_cancel_left, Nat.mod_self, Nat.min_zero]
  have hoffset : (f.currentOffset + 0) % 2 ^ 32 = f.currentOffset := by
    rw [Nat.add_zero, Nat.mod_eq_of_lt (by omega)]
  simp only [IsoFile.internalRead, hmin, hoffset]
  rfl

theorem not_inExtent_next {k : Nat} {l : List UInt32} (hk : entry.size.toNat = sectorLength * k) :
    ¬ InExtent entry ((entry.lba + .ofNat k) :: l) := by
  intro hin
  obtain ⟨j, hj, heq⟩ := hin _ List.mem_cons_self
  have hsize := entry.size.toNat_lt
  rw [hk, sectorLength] at hj hsize
  exact ofNat_add_ne (by omega) (by omega) (by omega) heq

/-- A sector boundary at which the extent ends: the next sector is asked for all the same. -/
theorem makeDataAvailable_end (h : At reader entry entry.size.toNat f)
    (hend : f.sectorOffset = sectorLength) :
    f.makeDataAvailable.maxOffset = f.makeDataAvailable.currentOffset ∧
      ¬ InExtent entry f.makeDataAvailable.sectors := by
  obtain ⟨k, hnumber, _, hk, _⟩ := h.here
  rw [IsoFile.makeDataAvailable, if_pos (Nat.le_of_eq hend.symm)]
  refine ⟨h.max_eq.trans h.offset_eq.symm, ?_⟩
  have hnext : f.currentSectorNumber + 1 = entry.lba + .ofNat (k + 1) := by
    rw [hnumber, UInt32.add_assoc, UInt32.ofNat_add]
    rfl
  simp only [IsoFile.readSector, hnext]
  exact not_inExtent_next (by rw [Nat.mul_succ]; omega)

/-- A read over the end of the extent ends there, and asks for one sector more when the extent
ends with a sector. -/
theorem read_over (h : At reader entry pos f) (hoff : 0 < f.sectorOffset) {n : Nat}
    (hn : n < sectorLength) (hover : entry.size.toNat < pos + n) :
    (f.read n).1 = load (extent reader entry) pos (entry.size.toNat - pos) ∧
      (f.read n).2.maxOffset ≤ (f.read n).2.currentOffset ∧
      (InExtent entry (f.read n).2.sectors ↔ entry.size.toNat % sectorLength ≠ 0) := by
  have hle := h.here.choose_spec.2.2.2
  have hpos := h.le
  have hsize : 0 < entry.size.toNat := by
    have hk := h.here.choose_spec.2.2.1
    omega
  rw [IsoFile.read, if_neg (by omega)]
  rcases Nat.lt_or_ge (entry.size.toNat - pos) (min n (sectorLength - f.sectorOffset)) with
    hshort | hlong
  · -- the extent ends inside this sector
    rw [h.internalRead_over (by omega)]
    obtain ⟨hfirst, hat⟩ := h.internalRead hsize
      (show f.sectorOffset + (entry.size.toNat - pos) ≤ sectorLength by omega) (by omega)
    have hlen := congrArg List.length hfirst
    have hoffset : (f.internalRead (entry.size.toNat - pos)).2.sectorOffset =
        f.sectorOffset + (f.internalRead (entry.size.toNat - pos)).1.length := by
      simp only [IsoFile.internalRead, length_load]
    rw [length_load] at hlen
    generalize f.internalRead (entry.size.toNat - pos) = first at *
    obtain ⟨data, g⟩ := first
    rw [Nat.add_sub_cancel' hpos] at hat
    simp only at hfirst hat hlen hoffset ⊢
    have hlt : g.sectorOffset < sectorLength := by omega
    have hstays : g.makeDataAvailable = g := by
      rw [IsoFile.makeDataAvailable, if_neg (Nat.not_le_of_lt hlt)]
    have hmod := hat.sectorOffset_eq hlt
    rw [readSectors_of_lt (by omega)]
    simp only [hlen, hstays,
      internalRead_of_max (hat.max_eq.trans hat.offset_eq.symm) hat.max_lt]
    rw [if_pos (by omega)]
    refine ⟨by rw [hfirst, List.append_nil, List.append_nil], ?_, ?_⟩
    · exact Nat.le_of_eq (hat.max_eq.trans hat.offset_eq.symm)
    · exact iff_of_true hat.sectors (by omega)
  · -- the read goes on to the next sector
    have hm : min n (sectorLength - f.sectorOffset) = sectorLength - f.sectorOffset := by omega
    rw [hm] at hlong ⊢
    obtain ⟨hfirst, hat⟩ := h.internalRead hsize
      (show f.sectorOffset + (sectorLength - f.sectorOffset) ≤ sectorLength by omega) (by omega)
    have hlen := congrArg List.length hfirst
    have hoffset : (f.internalRead (sectorLength - f.sectorOffset)).2.sectorOffset =
        f.sectorOffset + (f.internalRead (sectorLength - f.sectorOffset)).1.length := by
      simp only [IsoFile.internalRead, length_load]
    rw [length_load] at hlen
    generalize f.internalRead (sectorLength - f.sectorOffset) = first at *
    obtain ⟨data, g⟩ := first
    simp only at hfirst hat hlen hoffset ⊢
    have hend : g.sectorOffset = sectorLength := by omega
    have hmod := hat.mod_of_end hend
    rw [readSectors_of_lt (by omega)]
    simp only [hlen]
    rw [if_pos (by omega)]
    rcases Nat.lt_or_eq_of_le hat.le with hmore | hall
    · obtain ⟨hmake, hlt⟩ := hat.makeDataAvailable hmore
      have hzero := (hmake.sectorOffset_eq hlt).trans hmod
      rw [hmake.internalRead_over (by omega)]
      obtain ⟨hlast, hdone⟩ := hmake.internalRead hsize
        (show g.makeDataAvailable.sectorOffset +
          (entry.size.toNat - (pos + (sectorLength - f.sectorOffset))) ≤ sectorLength by omega)
        (by omega)
      have hsum : sectorLength - f.sectorOffset +
          (entry.size.toNat - (pos + (sectorLength - f.sectorOffset))) =
          entry.size.toNat - pos := by omega
      rw [hfirst, hlast, List.append_nil, ← load_add, hsum]
      refine ⟨rfl, ?_, iff_of_true hdone.sectors ?_⟩
      · rw [hdone.max_eq, hdone.offset_eq]
        omega
      · simp only [sectorLength] at hmod hn hlong hmore ⊢
        omega
    · rw [hall] at hat
      obtain ⟨hmax, hout⟩ := hat.makeDataAvailable_end hend
      have hleft : sectorLength - f.sectorOffset = entry.size.toNat - pos := by omega
      have hmaxlt : g.makeDataAvailable.maxOffset < 2 ^ 32 := by
        rw [IsoFile.makeDataAvailable]
        split <;> exact hat.max_lt
      rw [internalRead_of_max hmax hmaxlt, hfirst, List.append_nil, List.append_nil, hleft]
      refine ⟨rfl, Nat.le_of_eq hmax, iff_of_false hout ?_⟩
      · rw [← hall]
        exact not_not_intro hmod

end At

end OmegaRed.CDVD.IsoFS

/-! What the image readers use of the C library's files. -/

namespace OmegaRed.CDVD

open Lib.Memory Lib.Words

/-- `fread` of `n` bytes at a position. -/
def fread (src : List UInt8) (pos n : Nat) : List UInt8 := (src.drop pos).take n

/-- `PX_fseeko` from the start of the file. -/
def fseeko (pos : Int) : Option Nat := if 0 ≤ pos then some pos.toNat else none

/-- The little-endian `u32` at a position of a byte string. -/
def u32At (data : List UInt8) (pos : Nat) : UInt32 := loadWord (data.getD · 0) pos

/-- What an `int` makes of a number. -/
@[irreducible] def toInt32 (n : Nat) : Int := (n : Int).bmod (2 ^ 32)

/-- A read of `n` bytes at `pos` of `image` that left `dest'` for `dest` and returned `r`:
it wrote `r` bytes of the image, and fewer than `n` only at the image's end. -/
structure Slice (image : List UInt8) (pos n : Nat) (dest dest' : Nat → UInt8) (r : Int) : Prop where
  nonneg : 0 ≤ r
  inside : ∀ i, n ≤ i → dest' i = dest i
  le : r ≤ n
  data : load dest' 0 r.toNat = fread image pos r.toNat
  short : r < n → image.length ≤ pos + r.toNat

theorem toInt32_of_lt {n : Nat} (h : n < 2 ^ 31) : toInt32 n = n := by
  unfold toInt32
  refine Int.bmod_eq_of_le ?_ ?_ <;> omega

theorem toInt32_neg {n : Nat} (h : 2 ^ 31 ≤ n) (hlt : n < 2 ^ 32) : toInt32 n < 0 := by
  unfold toInt32
  rw [Int.bmod_def]
  omega

theorem toNat_toInt32_le (n : Nat) : (toInt32 n).toNat ≤ n ∧ (toInt32 n).toNat < 2 ^ 31 := by
  unfold toInt32
  rw [Int.bmod_def]
  omega

theorem length_fread (src : List UInt8) (pos n : Nat) :
    (fread src pos n).length = min n (src.length - pos) := by
  rw [fread, List.length_take, List.length_drop]

theorem fread_add (src : List UInt8) (pos n m : Nat) :
    fread src pos (n + m) = fread src pos n ++ fread src (pos + n) m := by
  rw [fread, fread, fread, List.take_add, List.drop_drop]

theorem fread_fread (src : List UInt8) (pos : Nat) {n k m : Nat} (h : k + m ≤ n) :
    fread (fread src pos n) k m = fread src (pos + k) m := by
  rw [fread, fread, fread, List.drop_take, List.take_take, List.drop_drop,
    Nat.min_eq_left (by omega)]

theorem fseeko_of_nonneg {pos : Int} {n : Nat} (h : pos = n) : fseeko pos = some n := by
  rw [h, fseeko, if_pos (Int.natCast_nonneg n)]
  rfl

/-- A read that stores `r` bytes is right exactly when it stops where the slice does. -/
theorem slice_store_iff {content : List UInt8} {size pos n r : Nat} (hsize : size ≤ content.length)
    (hr : (fread content pos r).length = r) (hint : r < 2 ^ 32) (dest : Nat → UInt8) :
    Slice (content.take size) pos n dest (store dest 0 (fread content pos r)) (toInt32 r) ↔
      r < 2 ^ 31 ∧ pos + r = max pos (min (pos + n) size) := by
  have himage : (content.take size).length = size := by
    rw [List.length_take, Nat.min_eq_left hsize]
  by_cases hlt : r < 2 ^ 31
  · rw [toInt32_of_lt hlt]
    constructor
    · rintro ⟨-, -, hle, hdata, hshort⟩
      have hlen := congrArg List.length hdata
      rw [length_load, length_fread, himage, Int.toNat_natCast] at hlen
      rw [himage, Int.toNat_natCast] at hshort
      exact ⟨hlt, by omega⟩
    · rintro ⟨-, heq⟩
      refine ⟨Int.natCast_nonneg r, fun i hi => store_of_ge _ _ (by omega), by omega, ?_, ?_⟩
      · have hload : load (store dest 0 (fread content pos r)) 0 r = fread content pos r := by
          have := load_store_self dest 0 (fread content pos r)
          rwa [hr] at this
        rw [Int.toNat_natCast, hload]
        by_cases hzero : r = 0
        · subst hzero
          rw [fread, fread, List.take_zero, List.take_zero]
        · have hfit : pos + r ≤ size := by omega
          have := fread_fread content 0 hfit
          rw [Nat.zero_add] at this
          exact this.symm
      · rw [himage, Int.toNat_natCast]
        omega
  · refine ⟨fun h => absurd h.nonneg ?_, fun h => absurd h.1 hlt⟩
    have := toInt32_neg (Nat.le_of_not_lt hlt) hint
    omega

end OmegaRed.CDVD
