import OmegaRed.CDVD.IsoFile

/-! Seeking in a file of an ISO image, and the view of its extent that a caller has. -/

namespace OmegaRed.CDVD.IsoFS

open Lib Lib.Memory

namespace IsoFile

/-- `seek(u32)`; `entry` is `fileEntry`. -/
def seek (entry : IsoFileDescriptor) (absoffset : UInt32) (f : IsoFile) : IsoFile :=
  let newSectorNumber := entry.lba + .ofNat (absoffset.toNat / sectorLength)
  let f := if f.currentSectorNumber ≠ newSectorNumber then f.readSector newSectorNumber else f
  { f with
    currentOffset := absoffset.toNat
    currentSectorNumber := newSectorNumber
    sectorOffset := absoffset.toNat % sectorLength }

/-- The limits of `seek(s64, wxSeekMode)` from the current position and from the end. -/
def truncate (offset : Int) : UInt32 := .ofNat (min (max 0 offset) 0xFFFFFFFF).toNat

def seekFromCurrent (entry : IsoFileDescriptor) (offset : Int64) (f : IsoFile) : IsoFile :=
  f.seek entry (truncate (f.currentOffset + offset.toInt))

def seekFromEnd (entry : IsoFileDescriptor) (offset : Int64) (f : IsoFile) : IsoFile :=
  f.seek entry (truncate (entry.size.toNat + offset.toInt))

/-- The bytes skipped, as an `s32`. -/
def skip (entry : IsoFileDescriptor) (n : Int32) (f : IsoFile) : Int × IsoFile :=
  if n.toInt < 0 then (0, f)
  else
    let g := f.seek entry (.ofNat (f.currentOffset + n.toInt.toNat))
    (((g.currentOffset : Int) - f.currentOffset).bmod (2 ^ 32), g)

def getSeekPos (f : IsoFile) : Nat := f.currentOffset

def eof (f : IsoFile) : Bool := f.currentOffset = f.maxOffset

def isNewline (c : UInt8) : Bool := c = 10 || c = 13 || c = 0

/-- The loop of `readLine`, with fuel; `none` when `readByte` throws. -/
def readLineLoop : Nat → IsoFile → Option (List UInt8) × IsoFile
  | 0, f => (some [], f)
  | fuel + 1, f =>
    if f.eof then (some [], f)
    else
      match f.readByte with
      | none => (none, f)
      | some (c, f) =>
        if isNewline c then (some [], f)
        else
          let (s, f) := readLineLoop fuel f
          (s.map (c :: ·), f)

def readLine (f : IsoFile) : Option (List UInt8) × IsoFile :=
  readLineLoop (f.maxOffset - f.currentOffset + 1) f

end IsoFile

/-- What a caller does with a file. -/
inductive Op
  | seek (absoffset : UInt32)
  | seekFromCurrent (offset : Int64)
  | seekFromEnd (offset : Int64)
  | skip (n : Int32)
  | readByte
  | read (len : Int32)
  | readLine

/-- What a caller gets: the bytes skipped, and the bytes read unless `EndOfStream` is thrown; after
that, the position and whether it is at the end. -/
structure Answer where
  skipped : Int
  data : Option (List UInt8)
  getSeekPos : Nat
  eof : Bool
  deriving DecidableEq

namespace IsoFile

def answer (skipped : Int) (data : Option (List UInt8)) (f : IsoFile) : Answer × IsoFile :=
  (⟨skipped, data, f.getSeekPos, f.eof⟩, f)

def apply (entry : IsoFileDescriptor) (f : IsoFile) : Op → Answer × IsoFile
  | .seek absoffset => answer 0 (some []) (f.seek entry absoffset)
  | .seekFromCurrent offset => answer 0 (some []) (f.seekFromCurrent entry offset)
  | .seekFromEnd offset => answer 0 (some []) (f.seekFromEnd entry offset)
  | .skip n => answer (f.skip entry n).1 (some []) (f.skip entry n).2
  | .readByte =>
    match f.readByte with
    | none => answer 0 none f
    | some (c, f) => answer 0 (some [c]) f
  | .read len => answer 0 (some (f.read len.toInt.toNat).1) (f.read len.toInt.toNat).2
  | .readLine => answer 0 f.readLine.1 f.readLine.2

def answers (entry : IsoFileDescriptor) : IsoFile → List Op → List Answer
  | _, [] => []
  | f, op :: ops => (f.apply entry op).1 :: answers entry (f.apply entry op).2 ops

end IsoFile

/-! ## The extent as a stream -/

/-- A stream of `size` bytes, from a position in it. -/
structure Ideal where
  bytes : Nat → UInt8
  size : Nat

namespace Ideal

variable (v : Ideal)

/-- A position is kept in the stream. -/
def clamp (offset : Int) : Nat := (min (max 0 offset) v.size).toNat

def rest (pos : Nat) : List UInt8 := load v.bytes pos (v.size - pos)

def answer (skipped : Int) (data : Option (List UInt8)) (pos : Nat) : Answer × Nat :=
  (⟨skipped, data, pos, decide (pos = v.size)⟩, pos)

/-- The line from the position on, and the end of the line with it. -/
def line (pos : Nat) : List UInt8 := (v.rest pos).takeWhile fun c => !IsoFile.isNewline c

def apply (pos : Nat) : Op → Answer × Nat
  | .seek absoffset => v.answer 0 (some []) (v.clamp absoffset.toNat)
  | .seekFromCurrent offset => v.answer 0 (some []) (v.clamp (pos + offset.toInt))
  | .seekFromEnd offset => v.answer 0 (some []) (v.clamp (v.size + offset.toInt))
  | .skip n => v.answer (v.clamp (pos + max 0 n.toInt) - pos) (some []) (v.clamp (pos + max 0 n.toInt))
  | .readByte =>
    if pos < v.size then v.answer 0 (some [v.bytes pos]) (pos + 1) else v.answer 0 none pos
  | .read len =>
    let n := min len.toInt.toNat (v.size - pos)
    v.answer 0 (some (load v.bytes pos n)) (pos + n)
  | .readLine => v.answer 0 (some (v.line pos)) (min (pos + (v.line pos).length + 1) v.size)

def answers : Nat → List Op → List Answer
  | _, [] => []
  | pos, op :: ops => (v.apply pos op).1 :: answers (v.apply pos op).2 ops

end Ideal

/-- The stream stands at byte `pos` of the extent, with the sector there or the one before it. -/
structure Stands (reader : SectorSource) (entry : IsoFileDescriptor) (pos : Nat) (f : IsoFile) :
    Prop where
  reader_eq : f.internalReader = reader
  max_eq : f.maxOffset = entry.size.toNat
  offset_eq : f.currentOffset = pos
  le : pos ≤ entry.size.toNat
  here : ∃ k, f.currentSectorNumber = entry.lba + .ofNat k ∧
    pos = sectorLength * k + f.sectorOffset
  sector : 0 < entry.size.toNat → f.currentSector = reader f.currentSectorNumber
  sectorOffset_le : f.sectorOffset ≤ sectorLength

namespace Stands

variable {reader : SectorSource} {entry : IsoFileDescriptor} {pos : Nat} {f : IsoFile}

theorem of_at (h : At reader entry pos f) : Stands reader entry pos f where
  reader_eq := h.reader_eq
  max_eq := h.max_eq
  offset_eq := h.offset_eq
  le := h.le
  here := by
    obtain ⟨k, hnumber, -, hpos, -⟩ := h.here
    exact ⟨k, hnumber, hpos⟩
  sector hsize := by
    obtain ⟨k, hnumber, hsector, -⟩ := h.here
    rw [hnumber, hsector hsize]
  sectorOffset_le := h.here.choose_spec.2.2.2

theorem seek (h : Stands reader entry pos f) {absoffset : UInt32}
    (hle : absoffset.toNat ≤ entry.size.toNat) :
    Stands reader entry absoffset.toNat (f.seek entry absoffset) := by
  rw [IsoFile.seek]
  refine ⟨?_, ?_, rfl, hle, ⟨absoffset.toNat / sectorLength, rfl, ?_⟩, fun hsize => ?_, ?_⟩
  · dsimp only
    split_ifs <;> exact h.reader_eq
  · dsimp only
    split_ifs <;> exact h.max_eq
  · exact (Nat.div_add_mod _ _).symm
  · dsimp only
    split_ifs with hnew
    · exact congrFun h.reader_eq _
    · rw [h.sector hsize, not_not.mp hnew]
  · exact (Nat.mod_lt _ (by decide)).le

theorem makeDataAvailable (h : Stands reader entry pos f) :
    Stands reader entry pos f.makeDataAvailable ∧
      f.makeDataAvailable.sectorOffset < sectorLength := by
  rw [IsoFile.makeDataAvailable]
  obtain ⟨k, hnumber, hpos⟩ := h.here
  have hoff := h.sectorOffset_le
  split_ifs with hend
  · have hzero : f.sectorOffset - sectorLength = 0 := by omega
    refine ⟨⟨h.reader_eq, h.max_eq, h.offset_eq, h.le, ⟨k + 1, ?_, ?_⟩, fun hsize => ?_, ?_⟩, ?_⟩
    · change f.currentSectorNumber + 1 = _
      rw [hnumber, UInt32.add_assoc, UInt32.ofNat_add]
      rfl
    · dsimp only
      rw [Nat.mul_succ]
      omega
    · exact congrFun h.reader_eq _
    · dsimp only
      omega
    · dsimp only
      rw [hzero]
      decide
  · exact ⟨h, not_le.mp hend⟩

theorem load_currentSector (h : Stands reader entry pos f) (hsize : 0 < entry.size.toNat) {n : Nat}
    (hn : f.sectorOffset + n ≤ sectorLength) :
    load f.currentSector f.sectorOffset n = load (extent reader entry) pos n := by
  obtain ⟨k, hnumber, hpos⟩ := h.here
  rw [h.sector hsize, hnumber]
  refine List.map_congr_left fun i hi => ?_
  have hlt : f.sectorOffset + i < sectorLength := by
    have := List.mem_range.mp hi
    omega
  have hi : pos + i = sectorLength * k + (f.sectorOffset + i) := by omega
  rw [extent, hi, Nat.mul_add_div (by decide), Nat.mul_add_mod, Nat.div_eq_of_lt hlt,
    Nat.mod_eq_of_lt hlt]
  rfl

theorem readByte (h : Stands reader entry pos f) (hpos : pos < entry.size.toNat) :
    ∃ g, f.readByte = some (extent reader entry pos, g) ∧ Stands reader entry (pos + 1) g := by
  obtain ⟨hmake, hlt⟩ := h.makeDataAvailable
  have hload := hmake.load_currentSector (by omega) (show _ + 1 ≤ sectorLength by omega)
  obtain ⟨k, hnumber, hk⟩ := hmake.here
  rw [IsoFile.readByte, if_neg (by rw [h.max_eq, h.offset_eq]; omega)]
  refine ⟨_, congrArg some (congrArg (·, _) (List.singleton_inj.mp hload)), hmake.reader_eq,
    hmake.max_eq, congrArg (· + 1) hmake.offset_eq, hpos, ⟨k, hnumber, ?_⟩, hmake.sector, hlt⟩
  dsimp only
  omega

theorem readByte_none (h : Stands reader entry pos f) (hpos : pos = entry.size.toNat) :
    f.readByte = none := by
  rw [IsoFile.readByte, if_pos (by rw [h.max_eq, h.offset_eq, hpos])]

theorem left_eq (h : Stands reader entry pos f) :
    (f.maxOffset + 2 ^ 32 - f.currentOffset) % 2 ^ 32 = entry.size.toNat - pos := by
  have hle := h.le
  have hsize := entry.size.toNat_lt
  rw [h.max_eq, h.offset_eq]
  omega

theorem internalRead (h : Stands reader entry pos f) {n : Nat}
    (hn : f.sectorOffset + min n (entry.size.toNat - pos) ≤ sectorLength) :
    (f.internalRead n).1 = load (extent reader entry) pos (min n (entry.size.toNat - pos)) ∧
      Stands reader entry (pos + min n (entry.size.toNat - pos)) (f.internalRead n).2 ∧
      (f.internalRead n).2.sectorOffset = f.sectorOffset + min n (entry.size.toNat - pos) := by
  rw [IsoFile.internalRead, h.left_eq]
  have hle := h.le
  obtain ⟨k, hnumber, hk⟩ := h.here
  refine ⟨?_, ⟨h.reader_eq, h.max_eq, ?_, by omega, ⟨k, hnumber, ?_⟩, h.sector, hn⟩, rfl⟩
  · rcases Nat.eq_zero_or_pos (min n (entry.size.toNat - pos)) with hzero | hpos
    · rw [hzero]
      rfl
    · exact h.load_currentSector (by omega) hn
  · have hsize := entry.size.toNat_lt
    dsimp only
    rw [h.offset_eq, Nat.mod_eq_of_lt (by omega)]
  · dsimp only
    omega

theorem readSectors (fuel : Nat) {len : Nat} (hfuel : len ≤ fuel) (h : Stands reader entry pos f)
    (hfull : f.sectorOffset = sectorLength ∨ pos = entry.size.toNat ∨ len = 0) :
    ∃ m, m ≤ len ∧ pos + m ≤ entry.size.toNat ∧
      (IsoFile.readSectors fuel f len).1 = len - m ∧
      (IsoFile.readSectors fuel f len).2.1 = load (extent reader entry) pos m ∧
      Stands reader entry (pos + m) (IsoFile.readSectors fuel f len).2.2 ∧
      ((IsoFile.readSectors fuel f len).2.2.sectorOffset = sectorLength ∧ len - m < sectorLength ∨
        pos + m = entry.size.toNat ∨ len - m = 0) := by
  have hstop : ∀ {f}, Stands reader entry pos f → ∀ len, (f.sectorOffset = sectorLength ∧
      len < sectorLength ∨ pos = entry.size.toNat ∨ len = 0) →
      ∃ m, m ≤ len ∧ pos + m ≤ entry.size.toNat ∧ len = len - m ∧
      [] = load (extent reader entry) pos m ∧ Stands reader entry (pos + m) f ∧
      (f.sectorOffset = sectorLength ∧ len - m < sectorLength ∨
        pos + m = entry.size.toNat ∨ len - m = 0) :=
    fun h len hdone => ⟨0, Nat.zero_le _, h.le, rfl, rfl, h, hdone⟩
  induction fuel generalizing f pos len with
  | zero => exact hstop h len (.inr (.inr (by omega)))
  | succ fuel ih =>
    rw [IsoFile.readSectors]
    by_cases hmore : sectorLength ≤ len ∧ f.currentOffset < f.maxOffset
    · have hpos : pos < entry.size.toNat := by
        rw [← h.offset_eq, ← h.max_eq]
        exact hmore.2
      have hlen : 0 < len := Nat.lt_of_lt_of_le (by decide) hmore.1
      have hend : f.sectorOffset = sectorLength := by
        rcases hfull with hend | hend | hzero
        · exact hend
        · omega
        · omega
      obtain ⟨hmake, -⟩ := h.makeDataAvailable
      have hzero : f.makeDataAvailable.sectorOffset = 0 := by
        rw [IsoFile.makeDataAvailable, if_pos hend.ge]
        dsimp only
        omega
      obtain ⟨hdata, hstands, hoff⟩ := hmake.internalRead (n := sectorLength) (by omega)
      rw [if_pos hmore]
      generalize f.makeDataAvailable.internalRead sectorLength = first at *
      obtain ⟨data, g⟩ := first
      dsimp only at hdata hstands hoff ⊢
      have hdataLen : data.length = min sectorLength (entry.size.toNat - pos) := by
        rw [hdata, length_load]
      rw [hdataLen]
      obtain ⟨m, hm, hle, hleft, hrest, hlast, hdone⟩ := ih (by simp only [sectorLength] at *; omega)
        hstands (show _ ∨ _ ∨ len - min sectorLength (entry.size.toNat - pos) = 0 by omega)
        fun h len hdone => ⟨0, Nat.zero_le _, h.le, rfl, rfl, h, hdone⟩
      refine ⟨min sectorLength (entry.size.toNat - pos) + m, by omega, by omega, ?_, ?_, ?_, ?_⟩
      · rw [hleft]
        omega
      · rw [hrest, hdata, load_add]
      · rw [← Nat.add_assoc]
        exact hlast
      · rw [← Nat.add_assoc, ← Nat.sub_sub]
        exact hdone
    · rw [if_neg hmore]
      refine hstop h len ?_
      have hpos := h.le
      rw [h.offset_eq, h.max_eq] at hmore
      rcases hfull with hend | hend | hzero
      · by_cases hlt : pos < entry.size.toNat
        · exact .inl ⟨hend, by omega⟩
        · exact .inr (.inl (by omega))
      · exact .inr (.inl hend)
      · exact .inr (.inr hzero)

theorem read (h : Stands reader entry pos f) (len : Nat) :
    (f.read len).1 = load (extent reader entry) pos (min len (entry.size.toNat - pos)) ∧
      Stands reader entry (pos + min len (entry.size.toNat - pos)) (f.read len).2 := by
  rw [IsoFile.read]
  by_cases hzero : len = 0
  · rw [if_pos hzero, hzero, Nat.zero_min]
    exact ⟨rfl, h⟩
  rw [if_neg hzero]
  have hoff := h.sectorOffset_le
  have hle := h.le
  obtain ⟨hfirst, hstands, hoffset⟩ :=
    h.internalRead (n := min len (sectorLength - f.sectorOffset)) (by omega)
  generalize f.internalRead (min len (sectorLength - f.sectorOffset)) = first at *
  obtain ⟨data, g⟩ := first
  dsimp only at hfirst hstands hoffset ⊢
  generalize hn : min (min len (sectorLength - f.sectorOffset)) (entry.size.toNat - pos) = n at *
  have hdataLen : data.length = n := by rw [hfirst, length_load]
  rw [hdataLen]
  obtain ⟨m, hm, hmle, hleft, hwhole, hmid, hdone⟩ := hstands.readSectors (len - n) le_rfl
    (by omega)
  generalize IsoFile.readSectors (len - n) g (len - n) = whole at *
  obtain ⟨left, bytes, g'⟩ := whole
  dsimp only at hleft hwhole hmid hdone ⊢
  subst hleft
  by_cases hmore : 0 < len - n - m
  · rw [if_pos hmore]
    dsimp only
    obtain ⟨hmake, hlt⟩ := hmid.makeDataAvailable
    have hfits : g'.makeDataAvailable.sectorOffset +
        min (len - n - m) (entry.size.toNat - (pos + n + m)) ≤ sectorLength := by
      rcases hdone with ⟨hend, hshort⟩ | hend | hnone
      · have hstart : g'.makeDataAvailable.sectorOffset = 0 := by
          rw [IsoFile.makeDataAvailable, if_pos hend.ge]
          dsimp only
          omega
        omega
      · omega
      · omega
    obtain ⟨hlast, hstands', -⟩ := hmake.internalRead hfits
    have hall : n + m + min (len - n - m) (entry.size.toNat - (pos + n + m)) =
        min len (entry.size.toNat - pos) := by omega
    refine ⟨?_, ?_⟩
    · rw [hlast, hwhole, hfirst, ← load_add, ← hall, Nat.add_assoc pos n m, ← load_add]
    · rw [← hall, ← Nat.add_assoc, ← Nat.add_assoc]
      exact hstands'
  · rw [if_neg hmore]
    have hall : n + m = min len (entry.size.toNat - pos) := by omega
    refine ⟨?_, ?_⟩
    · rw [hwhole, hfirst, ← load_add, hall]
    · rw [← hall, ← Nat.add_assoc]
      exact hmid

theorem eof_iff (h : Stands reader entry pos f) : f.eof = true ↔ pos = entry.size.toNat := by
  rw [IsoFile.eof, decide_eq_true_eq, h.offset_eq, h.max_eq]

/-! ## Lines -/

theorem readLineLoop (fuel : Nat) (h : Stands reader entry pos f)
    (hfuel : entry.size.toNat - pos < fuel) :
    (IsoFile.readLineLoop fuel f).1 = some (Ideal.line ⟨extent reader entry, entry.size.toNat⟩ pos) ∧
      Stands reader entry (min (pos + (Ideal.line ⟨extent reader entry, entry.size.toNat⟩ pos).length
        + 1) entry.size.toNat) (IsoFile.readLineLoop fuel f).2 := by
  induction fuel generalizing pos f with
  | zero => omega
  | succ fuel ih =>
    rw [IsoFile.readLineLoop]
    by_cases hend : pos = entry.size.toNat
    · have hline : Ideal.line ⟨extent reader entry, entry.size.toNat⟩ pos = [] := by
        rw [Ideal.line, Ideal.rest, hend, Nat.sub_self]
        rfl
      rw [if_pos (h.eof_iff.mpr hend), hline, Nat.min_eq_right (by rw [List.length_nil]; omega)]
      exact ⟨rfl, hend ▸ h⟩
    · have hpos : pos < entry.size.toNat := lt_of_le_of_ne h.le hend
      obtain ⟨g, hbyte, hstands⟩ := h.readByte hpos
      have hrest : Ideal.rest ⟨extent reader entry, entry.size.toNat⟩ pos = extent reader entry pos ::
          Ideal.rest ⟨extent reader entry, entry.size.toNat⟩ (pos + 1) := by
        have hsplit : entry.size.toNat - pos = 1 + (entry.size.toNat - (pos + 1)) := by omega
        rw [Ideal.rest, Ideal.rest]
        dsimp only
        rw [hsplit, load_add]
        rfl
      rw [if_neg fun htrue => hend (h.eof_iff.mp htrue), hbyte]
      dsimp only
      rw [Ideal.line, hrest, List.takeWhile_cons]
      cases hnew : IsoFile.isNewline (extent reader entry pos) with
      | true =>
        rw [if_pos rfl, if_neg (by decide), List.length_nil,
          Nat.min_eq_left (by omega : pos + 0 + 1 ≤ entry.size.toNat)]
        exact ⟨rfl, hstands⟩
      | false =>
        obtain ⟨hs, hg⟩ := ih hstands (by omega)
        rw [if_neg (by decide), if_pos (by decide), List.length_cons]
        rw [Ideal.line] at hs hg
        rw [hs]
        refine ⟨rfl, ?_⟩
        rw [Nat.add_right_comm pos] at hg
        exact hg

theorem readLine (h : Stands reader entry pos f) :
    f.readLine.1 = some (Ideal.line ⟨extent reader entry, entry.size.toNat⟩ pos) ∧
      Stands reader entry (min (pos + (Ideal.line ⟨extent reader entry, entry.size.toNat⟩ pos).length
        + 1) entry.size.toNat) f.readLine.2 := by
  rw [IsoFile.readLine]
  refine h.readLineLoop _ ?_
  rw [h.max_eq, h.offset_eq]
  exact Nat.lt_succ_self _

/-! ## One call -/

/-- The stream that the entry names. -/
abbrev ideal (reader : SectorSource) (entry : IsoFileDescriptor) : Ideal :=
  ⟨extent reader entry, entry.size.toNat⟩

theorem answer_eq (h : Stands reader entry pos f) (skipped : Int) (data : Option (List UInt8)) :
    (f.answer skipped data).1 = ((ideal reader entry).answer skipped data pos).1 := by
  have heof : f.eof = decide (pos = entry.size.toNat) :=
    Bool.eq_iff_iff.mpr (by rw [h.eof_iff, decide_eq_true_eq])
  rw [IsoFile.answer, Ideal.answer, IsoFile.getSeekPos, h.offset_eq, heof]

theorem toNat_truncate (offset : Int) :
    ((IsoFile.truncate offset).toNat : Int) = min (max 0 offset) 0xFFFFFFFF := by
  rw [IsoFile.truncate, UInt32.toNat_ofNat']
  omega

theorem seek_clamp (h : Stands reader entry pos f) {absoffset : UInt32} {offset : Int}
    (hoffset : (absoffset.toNat : Int) = min (max 0 offset) 0xFFFFFFFF)
    (hrange : min offset 0xFFFFFFFF ≤ entry.size.toNat) :
    Stands reader entry ((ideal reader entry).clamp offset) (f.seek entry absoffset) := by
  have hsize := entry.size.toNat_lt
  have hclamp : (ideal reader entry).clamp offset = absoffset.toNat := by
    simp only [Ideal.clamp]
    omega
  rw [hclamp]
  exact h.seek (by omega)

end Stands

/-- The calls that keep the position in the file. -/
def Op.InRange (v : Ideal) (pos : Nat) : Op → Prop
  | .seek absoffset => absoffset.toNat ≤ v.size
  | .seekFromCurrent offset => min (pos + offset.toInt) 0xFFFFFFFF ≤ v.size
  | .seekFromEnd offset => min (v.size + offset.toInt) 0xFFFFFFFF ≤ v.size
  | .skip n => pos + n.toInt ≤ v.size
  | .readByte | .read _ | .readLine => True

/-- Every call of the run keeps the position in the file. -/
def InRange (v : Ideal) : Nat → List Op → Prop
  | _, [] => True
  | pos, op :: ops => op.InRange v pos ∧ InRange v (v.apply pos op).2 ops

namespace Stands

variable {reader : SectorSource} {entry : IsoFileDescriptor} {pos : Nat} {f : IsoFile}

theorem skip (h : Stands reader entry pos f) {n : Int32} (hrange : pos + n.toInt ≤ entry.size.toNat) :
    (f.skip entry n).1 = (ideal reader entry).clamp (pos + max 0 n.toInt) - pos ∧
      Stands reader entry ((ideal reader entry).clamp (pos + max 0 n.toInt)) (f.skip entry n).2 := by
  have hle := h.le
  have hsize := entry.size.toNat_lt
  have hn := n.toInt_lt
  rw [IsoFile.skip]
  split_ifs with hneg
  · have hclamp : (ideal reader entry).clamp (pos + max 0 n.toInt) = pos := by
      simp only [Ideal.clamp]
      omega
    rw [hclamp, Int.sub_self]
    exact ⟨rfl, h⟩
  · have hto : (UInt32.ofNat (f.currentOffset + n.toInt.toNat)).toNat = pos + n.toInt.toNat := by
      rw [UInt32.toNat_ofNat', h.offset_eq]
      omega
    have hclamp : (ideal reader entry).clamp (pos + max 0 n.toInt) = pos + n.toInt.toNat := by
      simp only [Ideal.clamp]
      omega
    have hle' : (UInt32.ofNat (f.currentOffset + n.toInt.toNat)).toNat ≤ entry.size.toNat := by
      rw [hto]
      omega
    have hseek := h.seek hle'
    rw [hto] at hseek
    rw [hclamp]
    refine ⟨?_, hseek⟩
    dsimp only
    rw [hseek.offset_eq, h.offset_eq, Int.bmod_eq_of_le] <;> omega

theorem answer_ne {skipped skipped' : Int} {data data' : Option (List UInt8)} {g : IsoFile}
    {pos : Nat} (hne : g.currentOffset ≠ pos) :
    (g.answer skipped data).1 ≠ ((ideal reader entry).answer skipped' data' pos).1 :=
  fun heq => hne (congrArg Answer.getSeekPos heq)

/-- The two ends of a seek: it answers as the stream does, or it goes over the end. -/
theorem seek_iff (h : Stands reader entry pos f) {absoffset : UInt32} {offset : Int}
    (hoffset : (absoffset.toNat : Int) = min (max 0 offset) 0xFFFFFFFF) :
    (((f.seek entry absoffset).answer 0 (some [])).1 =
        ((ideal reader entry).answer 0 (some []) ((ideal reader entry).clamp offset)).1 ↔
      min offset 0xFFFFFFFF ≤ entry.size.toNat) := by
  constructor
  · intro heq
    by_contra hover
    refine answer_ne (?_ : absoffset.toNat ≠ (ideal reader entry).clamp offset) heq
    simp only [Ideal.clamp]
    omega
  · intro hrange
    exact (h.seek_clamp hoffset hrange).answer_eq 0 (some [])

/-- The call answers as the stream does exactly when it keeps the position in the file. -/
theorem apply (h : Stands reader entry pos f) (op : Op) :
    ((f.apply entry op).1 = ((ideal reader entry).apply pos op).1 ↔
      op.InRange (ideal reader entry) pos) ∧
    (op.InRange (ideal reader entry) pos →
      Stands reader entry ((ideal reader entry).apply pos op).2 (f.apply entry op).2) := by
  have hoffset := h.offset_eq
  cases op with
  | seek absoffset =>
    have hlt := absoffset.toNat_lt
    have hto : (absoffset.toNat : Int) = min (max 0 (absoffset.toNat : Int)) 0xFFFFFFFF := by omega
    have hrange : absoffset.toNat ≤ entry.size.toNat ↔
        min (absoffset.toNat : Int) 0xFFFFFFFF ≤ entry.size.toNat := by omega
    change (_ ↔ absoffset.toNat ≤ entry.size.toNat) ∧ (absoffset.toNat ≤ entry.size.toNat → _)
    rw [hrange]
    exact ⟨h.seek_iff hto, h.seek_clamp hto⟩
  | seekFromCurrent offset =>
    have hto := toNat_truncate (f.currentOffset + offset.toInt)
    rw [hoffset] at hto
    rw [IsoFile.apply, IsoFile.seekFromCurrent, hoffset]
    exact ⟨h.seek_iff hto, h.seek_clamp hto⟩
  | seekFromEnd offset =>
    have hto := toNat_truncate (entry.size.toNat + offset.toInt)
    exact ⟨h.seek_iff hto, h.seek_clamp hto⟩
  | skip n =>
    refine ⟨⟨fun heq => ?_, fun hrange => ?_⟩, fun hrange => (h.skip hrange).2⟩
    · by_contra hover
      have hle := h.le
      have hsize := entry.size.toNat_lt
      have hn := n.toInt_lt
      have hover : ¬ (pos + n.toInt ≤ entry.size.toNat) := hover
      refine answer_ne ?_ heq
      rw [IsoFile.skip, if_neg (by omega)]
      change (UInt32.ofNat (f.currentOffset + n.toInt.toNat)).toNat ≠ _
      rw [UInt32.toNat_ofNat', hoffset]
      simp only [Ideal.clamp]
      -- a sum that wraps comes out below its first term
      omega
    · obtain ⟨hskipped, hstands⟩ := h.skip hrange
      rw [IsoFile.apply, hskipped]
      exact hstands.answer_eq _ _
  | readByte =>
    rw [IsoFile.apply, Ideal.apply]
    refine ⟨iff_of_true ?_ trivial, fun _ => ?_⟩
    · by_cases hpos : pos < entry.size.toNat
      · obtain ⟨g, hbyte, hstands⟩ := h.readByte hpos
        rw [hbyte, if_pos hpos]
        exact hstands.answer_eq _ _
      · have hend : pos = entry.size.toNat := le_antisymm h.le (not_lt.mp hpos)
        rw [h.readByte_none hend, if_neg hpos]
        exact h.answer_eq _ _
    · by_cases hpos : pos < entry.size.toNat
      · obtain ⟨g, hbyte, hstands⟩ := h.readByte hpos
        rw [hbyte, if_pos hpos]
        exact hstands
      · have hend : pos = entry.size.toNat := le_antisymm h.le (not_lt.mp hpos)
        rw [h.readByte_none hend, if_neg hpos]
        exact h
  | read len =>
    obtain ⟨hdata, hstands⟩ := h.read len.toInt.toNat
    rw [IsoFile.apply, hdata]
    exact ⟨iff_of_true (hstands.answer_eq _ _) trivial, fun _ => hstands⟩
  | readLine =>
    obtain ⟨hdata, hstands⟩ := h.readLine
    rw [IsoFile.apply, hdata]
    exact ⟨iff_of_true (hstands.answer_eq _ _) trivial, fun _ => hstands⟩

/-- The answers of a run are the stream's exactly when every call keeps the position in the file. -/
theorem answers_iff (h : Stands reader entry pos f) (ops : List Op) :
    f.answers entry ops = (ideal reader entry).answers pos ops ↔
      InRange (ideal reader entry) pos ops := by
  induction ops generalizing pos f with
  | nil => exact iff_of_true rfl trivial
  | cons op ops ih =>
    rw [IsoFile.answers, Ideal.answers, List.cons.injEq, InRange, (h.apply op).1]
    exact and_congr_right fun hrange => ih ((h.apply op).2 hrange)

end Stands

end OmegaRed.CDVD.IsoFS
