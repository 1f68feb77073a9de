import OmegaRed.CDVD.InputIsoFile
import OmegaRed.Lib.Traces

/-! Which sectors `InputIsoFile` has in its read buffer, and which window of one it serves. -/

namespace OmegaRed.CDVD

open Lib.Memory Lib

namespace InputIsoFile

/-- How the sectors of an open image can lie. -/
def layouts : List (UInt32 × Int) := [(2048, 24), (2336, 16), (2352, 0), (2448, 0)]

structure Opened (f : InputIsoFile) : Prop where
  layout : (f.m_blocksize, f.m_blockofs) ∈ layouts
  unit : f.readUnit ≤ maxReadUnit
  count : f.m_read_count ≤ maxReadUnit

variable {f : InputIsoFile}

theorem tryIsoTypes_layout (r : ReadSync) (ts : List (UInt32 × Int × Int))
    (hts : ∀ t ∈ ts, (t.1, t.2.2) ∈ layouts) (f : InputIsoFile) (buf : Nat → UInt8) :
    let g := tryIsoTypes r f buf ts
    (g.m_blocksize, g.m_blockofs) ∈ layouts ∧ g.readUnit = f.readUnit ∧
      g.m_read_count = f.m_read_count := by
  induction ts generalizing f buf with
  | nil =>
    have haudio : (cdFramesizeRaw, (0 : Int)) ∈ layouts := by decide
    exact ⟨haudio, rfl, rfl⟩
  | cons t ts ih =>
    have hset : ∀ g, g = (f.tryIsoType r buf t.1 t.2.1 t.2.2).2 →
        (g.m_blocksize, g.m_blockofs) = (t.1, t.2.2) ∧ g.readUnit = f.readUnit ∧
          g.m_read_count = f.m_read_count := by
      rintro g rfl
      rw [tryIsoType]
      split_ifs <;> exact ⟨rfl, rfl, rfl⟩
    obtain ⟨hlayout, hunit, hcount⟩ := hset _ rfl
    rw [tryIsoTypes]
    split_ifs
    · exact ⟨hlayout ▸ hts t (by simp), hunit, hcount⟩
    · obtain ⟨hl, hu, hc⟩ :=
        ih (fun s hs => hts s (List.mem_cons_of_mem t hs)) (f.tryIsoType r buf t.1 t.2.1 t.2.2).2
          (f.tryIsoType r buf t.1 t.2.1 t.2.2).1.2
      exact ⟨hl, hu.trans hunit, hc.trans hcount⟩

/-- Whatever the header of a blockdump says, `Detect` lays the sectors out; no sector is read. -/
theorem openFile_opened {readbuffer : Nat → UInt8} {header : Option (UInt32 × Int)}
    {isCompressed : Bool} {r : ReadSync} {buf : Nat → UInt8} {sectors : Int} {blocks : UInt32}
    (h : openFile readbuffer header isCompressed r buf sectors blocks = some f) :
    f.Opened ∧ f.m_read_count = 0 := by
  rw [openFile] at h
  obtain ⟨g, hg, rfl⟩ := Option.map_eq_some_iff.mp h
  rw [detect] at hg
  split at hg
  · cases hg
  · obtain rfl := Option.some.inj hg
    obtain ⟨hl, hu, hc⟩ := tryIsoTypes_layout r isoTypes (by decide)
      { { (init readbuffer).withHeader header with m_type := .illegal } with m_blocks := 17 } buf
    have hunit : ((init readbuffer).withHeader header).readUnit ≤ maxReadUnit := by
      cases header with
      | none => exact (by decide : (0 : UInt32) ≤ maxReadUnit)
      | some header => exact (by decide : (1 : UInt32) ≤ maxReadUnit)
    have hcount : ((init readbuffer).withHeader header).m_read_count = 0 := by
      cases header <;> rfl
    have hzero := hc.trans hcount
    refine ⟨⟨?_, ?_, ?_⟩, ?_⟩
    · split_ifs <;> exact hl
    · split_ifs
      · exact UInt32.le_refl maxReadUnit
      · exact hu.symm ▸ hunit
    · split_ifs <;> exact (congrArg (· ≤ maxReadUnit) hzero).mpr (by decide)
    · split_ifs <;> exact hzero

/-- The modes that have a window. -/
def modes : List UInt32 := [0, 1, 2, 3]

/-- The copy is of a part of the block, to where a raw sector has it in the window, and ends with
the block or with the window. -/
structure Copy.Fits (c : Copy) (blocksize : UInt32) (blockofs offset size : Int) : Prop where
  diff : 0 ≤ c.diff
  ndiff : 0 ≤ c.ndiff
  length : 0 ≤ c.length
  block : c.ndiff + c.length ≤ blocksize.toNat
  window : c.diff + c.length ≤ size
  place : blockofs + c.ndiff = offset + c.diff
  start : c.diff = 0 ∨ c.ndiff = 0
  stop : c.ndiff + c.length = blocksize.toNat ∨ c.diff + c.length = size

/-- The copy for a layout. -/
def copyFor (t : UInt32 × Int) (mode : UInt32) : Copy :=
  { init (fun _ => 0) with m_blocksize := t.1, m_blockofs := t.2 }.copyOf mode

theorem copyFor_fits : ∀ t ∈ layouts, ∀ mode ∈ modes,
    (copyFor t mode).Fits t.1 t.2 (modeWindow mode).1 (modeWindow mode).2 := by
  intro t ht mode hm
  simp only [layouts, modes, List.mem_cons, List.not_mem_nil, or_false] at ht hm
  rcases ht with rfl | rfl | rfl | rfl <;> rcases hm with rfl | rfl | rfl | rfl <;>
    exact ⟨by decide, by decide, by decide, by decide, by decide, by decide, by decide, by decide⟩

theorem Opened.fits (h : f.Opened) {mode : UInt32} (hm : mode ∈ modes) :
    (f.copyOf mode).Fits f.m_blocksize f.m_blockofs (modeWindow mode).1 (modeWindow mode).2 :=
  copyFor_fits _ h.layout mode hm

theorem store_load_apply (m g : Nat → UInt8) (a b n i : Nat) :
    store m a (load g b n) i = if a ≤ i ∧ i < a + n then g (b + (i - a)) else m i := by
  split
  · next h =>
    obtain ⟨j, rfl⟩ := Nat.exists_eq_add_of_le h.1
    rw [store_of_mem m (getElem?_load g (show j < n by omega)), Nat.add_sub_cancel_left]
  · next h =>
    by_cases ha : i < a
    · exact store_of_lt _ _ ha
    · exact store_of_ge _ _ (by rw [length_load]; omega)

/-- The minute, second, frame and mode of a sector's header. -/
def sectorHeader (lsn : Int) : List UInt8 := lsnToMsf lsn ++ [2]

@[simp] theorem length_sectorHeader (lsn : Int) : (sectorHeader lsn).length = 4 := rfl

/-- The bytes of `place`: the header, the part of the block, zeros before it, and what was there
before behind it. -/
def placed (c : Copy) (cd : Bool) (lsn : Int) (block dst : Nat → UInt8) (i : Nat) : UInt8 :=
  if cd = true ∧ 12 ≤ c.diff ∧ c.diff.toNat - 12 ≤ i ∧ i < c.diff.toNat - 8 then
    (sectorHeader lsn).getD (i - (c.diff.toNat - 12)) 0
  else if c.diff.toNat ≤ i ∧ i < c.diff.toNat + c.length.toNat then
    block (c.ndiff.toNat + (i - c.diff.toNat))
  else if i < c.diff.toNat then 0
  else dst i

theorem store_zeros_apply (dst : Nat → UInt8) (n i : Nat) :
    store dst 0 (List.replicate n 0) i = if i < n then 0 else dst i := by
  split
  · next hi =>
    have hz := store_of_mem dst (a := 0) (i := i) (l := List.replicate n (0 : UInt8))
      (List.getElem?_replicate_of_lt hi)
    rwa [Nat.zero_add] at hz
  · next hi => exact store_of_ge _ _ (by rw [List.length_replicate]; omega)

theorem store_header_apply (dst : Nat → UInt8) (lsn : Int) {n : Nat} (h : 12 ≤ n) (i : Nat) :
    store (store dst (n - 12) (lsnToMsf lsn)) (n - 9) [2] i =
      if n - 12 ≤ i ∧ i < n - 8 then (sectorHeader lsn).getD (i - (n - 12)) 0 else dst i := by
  have happend := store_append dst (n - 12) (lsnToMsf lsn) [2]
  rw [show n - 12 + (lsnToMsf lsn).length = n - 9 from by
    rw [show (lsnToMsf lsn).length = 3 from rfl]; omega] at happend
  rw [happend, ← sectorHeader]
  split
  · next hi =>
    obtain ⟨j, rfl⟩ := Nat.exists_eq_add_of_le hi.1
    have hj : j < (sectorHeader lsn).length := by
      rw [length_sectorHeader]
      omega
    rw [store_of_mem dst (List.getElem?_eq_getElem hj), Nat.add_sub_cancel_left,
      List.getD_eq_getElem?_getD, List.getElem?_eq_getElem hj, Option.getD_some]
  · next hi =>
    by_cases hlt : i < n - 12
    · exact store_of_lt _ _ hlt
    · exact store_of_ge _ _ (by rw [length_sectorHeader]; omega)

theorem place_eq {mode : UInt32} (dst : Nat → UInt8) (h : 0 ≤ (f.copyOf mode).length) :
    f.place dst mode = some (placed (f.copyOf mode) (f.m_type = .cd) f.m_current_lsn.toInt
      (fun j => f.m_readbuffer (f.readOffset.toNat + j)) dst) := by
  rw [place, if_neg (Int.not_lt.mpr h)]
  generalize f.copyOf mode = c
  refine congrArg some (funext fun i => ?_)
  rw [placed]
  simp only [decide_eq_true_eq]
  have hbody := store_load_apply (store dst 0 (List.replicate c.diff.toNat 0)) f.m_readbuffer
    c.diff.toNat (c.ndiff.toNat + f.readOffset.toNat) c.length.toNat i
  rw [store_zeros_apply] at hbody
  rw [← Nat.add_assoc, Nat.add_comm f.readOffset.toNat, ← hbody]
  by_cases hcd : f.m_type = .cd ∧ 12 ≤ c.diff
  · rw [if_pos hcd, store_header_apply _ _ (by omega)]
    simp only [hcd.1, hcd.2, true_and]
  · rw [if_neg hcd, if_neg fun hi => hcd ⟨hi.1, hi.2.1⟩]

/-- The sector is one of those in the read window. -/
def Covers (f : InputIsoFile) (lsn : UInt32) : Prop :=
  f.m_read_lsn.toNat ≤ lsn.toNat ∧ lsn.toNat < f.m_read_lsn.toNat + f.m_read_count.toNat

/-- Where the read buffer has a sector of the window. -/
def blockStart (f : InputIsoFile) (lsn : UInt32) : Nat :=
  (lsn.toNat - f.m_read_lsn.toNat) * f.m_blocksize.toNat

theorem covers_of_buffered {lsn : UInt32} (h : f.buffered lsn = true) : f.Covers lsn := by
  simp only [buffered, Bool.and_eq_true, decide_eq_true_eq, UInt32.le_iff_toNat_le,
    UInt32.lt_iff_toNat_lt, UInt32.toNat_add] at h
  have := Nat.mod_le (f.m_read_lsn.toNat + f.m_read_count.toNat) (2 ^ 32)
  exact ⟨h.1, by omega⟩

theorem Opened.blockStart_le (h : f.Opened) {lsn : UInt32} (hc : f.Covers lsn) :
    f.blockStart lsn + f.m_blocksize.toNat ≤ maxReadUnit.toNat * cdFramesizeRaw.toNat := by
  have hsize : f.m_blocksize.toNat ≤ cdFramesizeRaw.toNat :=
    (by decide : ∀ t ∈ layouts, t.1.toNat ≤ cdFramesizeRaw.toNat) _ h.layout
  have hcount := UInt32.le_iff_toNat_le.mp h.count
  have hslot : lsn.toNat - f.m_read_lsn.toNat + 1 ≤ maxReadUnit.toNat := by
    have := hc.1
    have := hc.2
    omega
  calc f.blockStart lsn + f.m_blocksize.toNat
      = (lsn.toNat - f.m_read_lsn.toNat + 1) * f.m_blocksize.toNat := by
        rw [blockStart, Nat.add_mul, Nat.one_mul]
    _ ≤ maxReadUnit.toNat * cdFramesizeRaw.toNat := Nat.mul_le_mul hslot hsize

theorem Opened.readOffset_eq (h : f.Opened) {lsn : UInt32} (hc : f.Covers lsn)
    (hcur : f.m_current_lsn = lsn.toInt32) : f.readOffset.toNat = f.blockStart lsn := by
  have hle := h.blockStart_le hc
  have hbuf : maxReadUnit.toNat * cdFramesizeRaw.toNat < 2 ^ 32 := by decide
  rw [readOffset, hcur, UInt32.toUInt32_toInt32, UInt32.toNat_mul,
    UInt32.toNat_sub_of_le _ _ (UInt32.le_iff_toNat_le.mpr hc.1)]
  exact Nat.mod_eq_of_lt (by rw [← blockStart]; omega)

theorem Opened.copy_le (h : f.Opened) (mode : UInt32) :
    0 ≤ (f.copyOf mode).ndiff ∧
      (f.copyOf mode).ndiff + (f.copyOf mode).length ≤ f.m_blocksize.toNat := by
  have hend : (f.m_blockofs + f.m_blocksize.toNat).bmod (2 ^ 32) =
      f.m_blockofs + f.m_blocksize.toNat :=
    (by decide : ∀ t ∈ layouts, (t.2 + (t.1.toNat : Int)).bmod (2 ^ 32) = t.2 + t.1.toNat) _
      h.layout
  rw [copyOf, hend]
  split <;> constructor <;> simp only <;> omega

/-- What a raw sector has at a position: the block at its place, zeros before it but for the header
of a CD's sector, and behind it nothing that is known. -/
def rawSector (f : InputIsoFile) (lsn : UInt32) (block : Nat → UInt8) (i : Nat) : Option UInt8 :=
  if i < f.m_blockofs.toNat then
    if f.m_type = .cd ∧ 12 ≤ i ∧ i < 16 then (sectorHeader lsn.toInt32.toInt)[i - 12]? else some 0
  else if i < f.m_blockofs.toNat + f.m_blocksize.toNat then some (block (i - f.m_blockofs.toNat))
  else none

variable {lsn : UInt32}

/-- The number of blocks that a read asks for. -/
def readCount (f : InputIsoFile) (lsn : UInt32) : UInt32 :=
  if 1 < f.readUnit then min f.readUnit (f.m_blocks - lsn) else 1

theorem beginRead2_cases (f : InputIsoFile) (lsn : UInt32) :
    (f.m_blocks < lsn ∧ f.beginRead2 lsn = { f with m_current_lsn := -1 }) ∨
    (¬f.m_blocks < lsn ∧ f.buffered lsn = true ∧
      f.beginRead2 lsn = { f with m_current_lsn := lsn.toInt32 }) ∨
    (¬f.m_blocks < lsn ∧ f.buffered lsn = false ∧
      f.beginRead2 lsn = { f with
        m_current_lsn := lsn.toInt32, m_read_lsn := lsn, m_read_count := f.readCount lsn,
        m_read_inprogress := true }) := by
  rw [beginRead2]
  by_cases hpast : f.m_blocks < lsn
  · exact Or.inl ⟨hpast, if_pos hpast⟩
  · rw [if_neg hpast]
    cases hbuf : f.buffered lsn with
    | true => exact Or.inr (Or.inl ⟨hpast, rfl, if_pos hbuf⟩)
    | false => exact Or.inr (Or.inr ⟨hpast, rfl, if_neg (ne_true_of_eq_false hbuf)⟩)

theorem readCount_toNat (hle : ¬f.m_blocks < lsn) : (f.readCount lsn).toNat =
    if 1 < f.readUnit then min f.readUnit.toNat (f.m_blocks.toNat - lsn.toNat) else 1 := by
  have hsub : (f.m_blocks - lsn).toNat = f.m_blocks.toNat - lsn.toNat :=
    UInt32.toNat_sub_of_le _ _ (UInt32.not_lt.mp hle)
  rw [readCount]
  split
  · rw [show min f.readUnit (f.m_blocks - lsn) =
      if f.readUnit ≤ f.m_blocks - lsn then f.readUnit else f.m_blocks - lsn from rfl]
    split_ifs with h <;> rw [UInt32.le_iff_toNat_le] at h <;> omega
  · rfl

theorem Opened.beginRead2 (h : f.Opened) (lsn : UInt32) : (f.beginRead2 lsn).Opened := by
  rcases f.beginRead2_cases lsn with ⟨-, heq⟩ | ⟨-, -, heq⟩ | ⟨hle, -, heq⟩ <;> rw [heq]
  · exact ⟨h.layout, h.unit, h.count⟩
  · exact ⟨h.layout, h.unit, h.count⟩
  · refine ⟨h.layout, h.unit, UInt32.le_iff_toNat_le.mpr ?_⟩
    have hunit := UInt32.le_iff_toNat_le.mp h.unit
    have hone : 1 ≤ maxReadUnit.toNat := by decide
    simp only [readCount_toNat hle]
    split <;> omega

/-- A sector that the image has is in the window after `BeginRead2`; so is the one behind the last,
where sectors are read one by one. -/
theorem beginRead2_covers (hle : ¬f.m_blocks < lsn) (h : lsn = f.m_blocks → ¬1 < f.readUnit) :
    (f.beginRead2 lsn).Covers lsn ∧ (f.beginRead2 lsn).m_current_lsn = lsn.toInt32 := by
  rcases f.beginRead2_cases lsn with ⟨hgt, -⟩ | ⟨-, hbuf, heq⟩ | ⟨-, -, heq⟩
  · exact absurd hgt hle
  · rw [heq]
    exact ⟨covers_of_buffered hbuf, rfl⟩
  · rw [heq]
    refine ⟨⟨Nat.le_refl _, ?_⟩, rfl⟩
    simp only [readCount_toNat hle]
    rw [UInt32.lt_iff_toNat_lt] at hle
    split
    · next hunit =>
      have hne : lsn.toNat ≠ f.m_blocks.toNat := fun heq => h (UInt32.toNat_inj.mp heq) hunit
      rw [UInt32.lt_iff_toNat_lt] at hunit
      have hone : (1 : UInt32).toNat = 1 := rfl
      omega
    · omega

/-- `FinishRead3` waits for the reader. -/
def Finishes (f : InputIsoFile) : Prop := ¬f.m_current_lsn < 0 ∧ f.m_read_inprogress = true

instance (f : InputIsoFile) : Decidable f.Finishes := inferInstanceAs (Decidable (_ ∧ _))

/-- The file behind `FinishRead3`. -/
def finished (f : InputIsoFile) (fin : Int × (Nat → UInt8)) : InputIsoFile :=
  if f.Finishes then { f with m_read_inprogress := false, m_readbuffer := fin.2 } else f

theorem finishRead3_eq (f : InputIsoFile) (fin : Int × (Nat → UInt8)) (dst : Nat → UInt8)
    (mode : UInt32) : f.finishRead3 fin dst mode =
      (if f.m_current_lsn < 0 then some (-1, dst)
        else if f.m_read_inprogress = true ∧ fin.1 < 0 then some (fin.1, dst)
        else ((f.finished fin).place dst mode).map ((0, ·)), f.finished fin) := by
  rw [finishRead3, finished]
  by_cases hcur : f.m_current_lsn < 0
  · rw [if_pos hcur, if_pos hcur, if_neg fun h => h.1 hcur]
  · rw [if_neg hcur, if_neg hcur]
    by_cases hprog : f.m_read_inprogress = true
    · rw [if_pos hprog, if_pos (show f.Finishes from ⟨hcur, hprog⟩)]
      by_cases hfin : fin.1 < 0
      · rw [if_pos hfin, if_pos ⟨hprog, hfin⟩]
      · rw [if_neg hfin, if_neg fun h => hfin h.2]
    · rw [if_neg hprog, if_neg fun h => hprog h.1, if_neg fun h => hprog h.2]

theorem Opened.finished (h : f.Opened) (fin : Int × (Nat → UInt8)) : (f.finished fin).Opened := by
  rw [InputIsoFile.finished]
  split
  · exact ⟨h.layout, h.unit, h.count⟩
  · exact h

end InputIsoFile

open InputIsoFile

/-- A `BeginRead2` and the `FinishRead3` that belongs to it, with what the reader's `FinishRead`
would give. -/
structure Request where
  lsn : UInt32
  fin : Int × (Nat → UInt8)
  dst : Nat → UInt8
  mode : UInt32

/-- A file, and whether the last read that the reader has finished failed. -/
structure Reads where
  file : InputIsoFile
  failed : Bool

namespace Reads

def request (s : Reads) (q : Request) : Option (Int × (Nat → UInt8)) × Reads :=
  let f := s.file.beginRead2 q.lsn
  let res := f.finishRead3 q.fin q.dst q.mode
  (res.1, ⟨res.2, if f.Finishes then decide (q.fin.1 < 0) else s.failed⟩)

/-- The file that answers a request. -/
def answering (s : Reads) (q : Request) : InputIsoFile := (s.request q).2.file

variable {s : Reads} {q : Request} {dst' : Nat → UInt8}

theorem answering_eq (s : Reads) (q : Request) :
    s.answering q = (s.file.beginRead2 q.lsn).finished q.fin := by
  rw [answering, request, finishRead3_eq]

/-- A request is answered with data exactly when the sector can be asked for and the read, if there
is one to finish, succeeds. -/
theorem request_eq (s : Reads) (q : Request)
    (hcur : ¬(s.file.beginRead2 q.lsn).m_current_lsn < 0)
    (hfin : (s.file.beginRead2 q.lsn).m_read_inprogress = true → 0 ≤ q.fin.1) :
    (s.request q).1 = ((s.answering q).place q.dst q.mode).map ((0, ·)) := by
  rw [answering_eq, request, finishRead3_eq, if_neg hcur, if_neg]
  rintro ⟨hprog, hneg⟩
  exact absurd (hfin hprog) (Int.not_le.mpr hneg)

theorem request_some (h : (s.request q).1 = some (0, dst')) :
    ¬(s.file.beginRead2 q.lsn).m_current_lsn < 0 ∧
      ((s.file.beginRead2 q.lsn).m_read_inprogress = true → 0 ≤ q.fin.1) ∧
      (s.answering q).place q.dst q.mode = some dst' := by
  have hcur : ¬(s.file.beginRead2 q.lsn).m_current_lsn < 0 := by
    intro hneg
    rw [request, finishRead3_eq, if_pos hneg] at h
    cases h
  have hfin : (s.file.beginRead2 q.lsn).m_read_inprogress = true → 0 ≤ q.fin.1 := by
    intro hprog
    refine Int.not_lt.mp fun hneg => ?_
    rw [request, finishRead3_eq, if_neg hcur, if_pos ⟨hprog, hneg⟩] at h
    have hzero := congrArg Prod.fst (Option.some.inj h)
    simp only at hzero
    omega
  rw [request_eq s q hcur hfin, Option.map_eq_some_iff] at h
  obtain ⟨_, hplace, heq⟩ := h
  exact ⟨hcur, hfin, (Prod.mk.inj heq).2 ▸ hplace⟩

theorem answering_same (s : Reads) (q : Request) :
    (s.answering q).m_current_lsn = (s.file.beginRead2 q.lsn).m_current_lsn ∧
      (s.answering q).m_read_lsn = (s.file.beginRead2 q.lsn).m_read_lsn ∧
      (s.answering q).m_read_count = (s.file.beginRead2 q.lsn).m_read_count ∧
      (s.answering q).m_blocksize = s.file.m_blocksize ∧ (s.answering q).m_blocks = s.file.m_blocks ∧
      (s.answering q).readUnit = s.file.readUnit := by
  obtain ⟨hsize, hblocks, hunit⟩ : (s.file.beginRead2 q.lsn).m_blocksize = s.file.m_blocksize ∧
      (s.file.beginRead2 q.lsn).m_blocks = s.file.m_blocks ∧
      (s.file.beginRead2 q.lsn).readUnit = s.file.readUnit := by
    rcases s.file.beginRead2_cases q.lsn with ⟨-, heq⟩ | ⟨-, -, heq⟩ | ⟨-, -, heq⟩ <;> rw [heq] <;>
      exact ⟨rfl, rfl, rfl⟩
  rw [answering_eq, finished]
  split <;> exact ⟨rfl, rfl, rfl, hsize, hblocks, hunit⟩

theorem request_opened (h : s.file.Opened) (q : Request) : (s.request q).2.file.Opened := by
  have hopened := (h.beginRead2 q.lsn).finished q.fin
  rwa [← answering_eq] at hopened

/-- A request of any kind. -/
def Asks (s t : Reads) : Prop := ∃ q, t = (s.request q).2

theorem opened_of_asks {f : InputIsoFile} (h : f.Opened)
    (hs : Relation.ReflTransGen Asks ⟨f, false⟩ s) : s.file.Opened := by
  refine @Run.invariant _ _ (fun s : Reads => s.file.Opened) ?_ _ _ hs h
  rintro s t hopened ⟨q, rfl⟩
  exact request_opened hopened q

theorem toInt32_neg_iff (lsn : UInt32) : lsn.toInt32 < 0 ↔ 2 ^ 31 ≤ lsn.toNat := by
  have hlt := lsn.toNat_lt
  rw [Int32.lt_iff_toInt_lt, show lsn.toInt32.toInt = lsn.toBitVec.toInt from rfl,
    show ((0 : Int32).toInt : Int) = 0 from rfl, BitVec.toInt_eq_toNat_cond,
    show lsn.toBitVec.toNat = lsn.toNat from rfl]
  split <;> omega

end Reads

/-- What `FinishRead3` gives of a sector of the read buffer: a part of its block, at the place that
a raw sector has it in the window of the mode.  Where the block is at 16 and the image is a CD, the
bytes before the block are left out. -/
structure Windowed (f : InputIsoFile) (lsn mode : UInt32) (dst dst' : Nat → UInt8) : Prop where
  length : 0 ≤ (f.copyOf mode).length
  first : 0 ≤ (f.copyOf mode).ndiff
  last : (f.copyOf mode).ndiff + (f.copyOf mode).length ≤ f.m_blocksize.toNat
  block : f.readOffset.toNat = f.blockStart lsn ∧ f.Covers lsn
  buffer : f.blockStart lsn + f.m_blocksize.toNat ≤ maxReadUnit.toNat * cdFramesizeRaw.toNat
  outside : ∀ i : Nat, (modeWindow mode).2 ≤ i → dst' i = dst i
  inside : ∀ i : Nat, i < (modeWindow mode).2 →
    (f.m_type = .cd → f.m_blockofs = 16 → 16 ≤ (modeWindow mode).1 + i) →
    dst' i = (f.rawSector lsn (fun j => f.m_readbuffer (f.blockStart lsn + j))
      ((modeWindow mode).1.toNat + i)).getD (dst i)
  sync : mode = 3 → ∀ (r : ReadSync) (cdbuffer : Nat → UInt8),
    (∀ j < f.m_blocksize.toNat,
      (r f.m_blocksize f.m_offset cdbuffer f.m_blockofs lsn 1).2 (f.m_blockofs.toNat + j) =
        f.m_readbuffer (f.blockStart lsn + j)) →
    ((isoReadSector f r cdbuffer dst lsn 3).1, (isoReadSector f r cdbuffer dst lsn 3).2.1) =
      (0, dst')

namespace InputIsoFile

variable {f : InputIsoFile} {lsn mode : UInt32} {c : Copy} {block dst : Nat → UInt8}

theorem Copy.Fits.placed_outside {blocksize : UInt32} {blockofs offset size : Int}
    (h : c.Fits blocksize blockofs offset size) (cd : Bool) (k : Int) {i : Nat} (hi : size ≤ i) :
    placed c cd k block dst i = dst i := by
  have hlen := h.length
  have hwin := h.window
  have hdiff := h.diff
  rw [placed, if_neg (by omega), if_neg (by omega), if_neg (by omega)]

theorem modeWindow_start : ∀ mode ∈ modes,
    (modeWindow mode).1 = 0 ∨ (modeWindow mode).1 = 12 ∨ (modeWindow mode).1 = 24 := by
  intro mode hm
  simp only [modes, List.mem_cons, List.not_mem_nil, or_false] at hm
  rcases hm with rfl | rfl | rfl | rfl <;> decide

theorem layouts_blockofs : ∀ t ∈ layouts, t.2 = 0 ∨ t.2 = 16 ∨ t.2 = 24 := by
  intro t ht
  simp only [layouts, List.mem_cons, List.not_mem_nil, or_false] at ht
  rcases ht with rfl | rfl | rfl | rfl <;> decide

theorem Opened.placed_inside (h : f.Opened) (hm : mode ∈ modes) {i : Nat}
    (hi : i < (modeWindow mode).2)
    (hslip : f.m_type = .cd → f.m_blockofs = 16 → 16 ≤ (modeWindow mode).1 + i) :
    placed (f.copyOf mode) (f.m_type = .cd) lsn.toInt32.toInt block dst i =
      (f.rawSector lsn block ((modeWindow mode).1.toNat + i)).getD (dst i) := by
  obtain ⟨hdiff, hndiff, hlen, hblock, -, hplace, hstart, hstop⟩ := h.fits hm
  have hofs := modeWindow_start mode hm
  have hblockofs := layouts_blockofs _ h.layout
  dsimp only at hblockofs
  generalize f.copyOf mode = c at *
  generalize (modeWindow mode).1 = offset at *
  rw [placed, rawSector]
  simp only [decide_eq_true_eq]
  by_cases hbefore : offset.toNat + i < f.m_blockofs.toNat
  · -- before the block, where only a block at 24 leaves room for the header
    rw [if_pos hbefore]
    by_cases hcd : f.m_type = .cd
    · have h24 : f.m_blockofs = 24 := by
        have := hslip hcd
        omega
      by_cases hhead : 12 ≤ offset.toNat + i ∧ offset.toNat + i < 16
      · have hget : i - (c.diff.toNat - 12) = offset.toNat + i - 12 := by omega
        rw [if_pos ⟨hcd, by omega⟩, if_pos ⟨hcd, hhead⟩, hget, List.getD_eq_getElem?_getD,
          List.getElem?_eq_getElem (by rw [length_sectorHeader]; omega), Option.getD_some,
          Option.getD_some]
      · rw [if_neg (by omega), if_neg (by omega), if_pos (by omega), if_neg fun h => hhead h.2,
          Option.getD_some]
    · rw [if_neg fun h => hcd h.1, if_neg (by omega), if_pos (by omega), if_neg fun h => hcd h.1,
        Option.getD_some]
  · rw [if_neg hbefore, if_neg (by omega)]
    by_cases hin : offset.toNat + i < f.m_blockofs.toNat + f.m_blocksize.toNat
    · have hpos : c.ndiff.toNat + (i - c.diff.toNat) =
          offset.toNat + i - f.m_blockofs.toNat := by omega
      rw [if_pos hin, if_pos (by omega), hpos, Option.getD_some]
    · rw [if_neg hin, if_neg (by omega), if_neg (by omega), Option.getD_none]

/-- In mode 2048 the window is inside the block, and `ISOreadSector` copies the same part of it. -/
theorem Opened.placed_sync (h : f.Opened) (r : ReadSync) (cdbuffer : Nat → UInt8)
    (hle : ¬f.m_blocks < lsn) (hpos : ¬lsn.toInt32 < 0)
    (hr : ∀ j < f.m_blocksize.toNat,
      (r f.m_blocksize f.m_offset cdbuffer f.m_blockofs lsn 1).2 (f.m_blockofs.toNat + j) = block j) :
    ((isoReadSector f r cdbuffer dst lsn 3).1, (isoReadSector f r cdbuffer dst lsn 3).2.1) =
      (0, placed (f.copyOf 3) (f.m_type = .cd) lsn.toInt32.toInt block dst) := by
  rw [isoReadSector, if_neg hpos, if_neg hle, if_neg (by decide), readSync, if_neg hle]
  refine Prod.ext rfl (funext fun i => ?_)
  simp only [store_load_apply, Nat.zero_le, true_and, Nat.zero_add, Nat.sub_zero]
  have hm : (3 : UInt32) ∈ modes := by decide
  have hwin : modeWindow 3 = (24, 2048) := rfl
  have hspan : f.m_blockofs.toNat ≤ 24 ∧ 24 + 2048 ≤ f.m_blockofs.toNat + f.m_blocksize.toNat :=
    (by decide : ∀ t ∈ layouts, t.2.toNat ≤ 24 ∧ 24 + 2048 ≤ t.2.toNat + t.1.toNat) _ h.layout
  by_cases hi : i < 2048
  · have hin := @Opened.placed_inside f lsn 3 block dst h hm i (by rw [hwin]; omega)
      (by rw [hwin]; omega)
    have hat := hr (24 + i - f.m_blockofs.toNat) (by omega)
    rw [show f.m_blockofs.toNat + (24 + i - f.m_blockofs.toNat) = 24 + i by omega] at hat
    rw [hin, rawSector, hwin]
    simp only [Int.reduceToNat, hi, if_true]
    rw [if_neg (by omega), if_pos (by omega), Option.getD_some, hat]
  · rw [(h.fits hm).placed_outside _ _ (by rw [hwin]; omega), hwin]
    simp only [Int.reduceToNat, hi, if_false]

end InputIsoFile

namespace Reads

variable {s : Reads} {q : Request}

/-- A flat image of 2048-byte sectors, of which nothing but the identifier matters. -/
def isoReader : ReadSync := fun _ _ dst ofs _ _ => (0, store dst ofs.toNat (0 :: isoMagic))

/-- The image as `Open` finds it. -/
def isoFile : InputIsoFile :=
  { init (fun _ => 0) with
    readUnit := maxReadUnit, m_type := .dvd, m_blocksize := 2048, m_blockofs := 24, m_blocks := 17 }

/-- The request of one raw sector into a buffer of one value. -/
def rawRequest (v : UInt8) : Request := ⟨0, (0, fun _ => 7), fun _ => v, 0⟩

theorem openFile_isoFile :
    openFile (fun _ => 0) none false isoReader (fun _ => 0) 17 17 = some isoFile := rfl

end Reads

namespace InputIsoFile

/-- The read buffer has the blocks of the window. -/
def Holds (image : Nat → Nat → UInt8) (f : InputIsoFile) : Prop :=
  ∀ i < f.m_read_count.toNat, ∀ j < f.m_blocksize.toNat,
    f.m_readbuffer (i * f.m_blocksize.toNat + j) = image (f.m_read_lsn.toNat + i) j

end InputIsoFile

/-- A read that succeeds leaves the blocks of the image in the buffer. -/
def Request.Faithful (image : Nat → Nat → UInt8) (s : Reads) (q : Request) : Prop :=
  0 ≤ q.fin.1 → Holds image { s.file.beginRead2 q.lsn with m_readbuffer := q.fin.2 }

/-- The sector is not one of a window whose read has failed, and no read of no blocks succeeds. -/
def Request.Harmless (s : Reads) (q : Request) : Prop :=
  q.lsn.toInt32 < 0 ∨
    (¬(s.failed = true ∧ s.file.m_read_inprogress = false ∧ s.file.buffered q.lsn = true) ∧
      ¬(q.lsn = s.file.m_blocks ∧ 1 < s.file.readUnit ∧ 0 ≤ q.fin.1))

/-- Where a request is answered with data, they are of the block of its sector. -/
def Request.Served (image : Nat → Nat → UInt8) (s : Reads) (q : Request) : Prop :=
  ∀ dst', (s.request q).1 = some (0, dst') →
    ∀ i < ((s.answering q).copyOf q.mode).length.toNat,
      dst' (((s.answering q).copyOf q.mode).diff.toNat + i) =
        image q.lsn.toNat (((s.answering q).copyOf q.mode).ndiff.toNat + i)

namespace Reads

variable {s : Reads} {q : Request} {image : Nat → Nat → UInt8}

/-- A request whose read goes through and which reaches no window that has failed. -/
def AsksHarmless (image : Nat → Nat → UInt8) (s t : Reads) : Prop :=
  ∃ q : Request, q.Faithful image s ∧ q.Harmless s ∧ t = (s.request q).2

/-- The buffer has what the window says, unless its read is still to finish or has failed. -/
structure Inv (image : Nat → Nat → UInt8) (s : Reads) : Prop where
  opened : s.file.Opened
  holds : s.file.m_read_inprogress = false → s.failed = false → Holds image s.file

theorem served_of_holds (hopened : (s.answering q).Opened) (hcov : (s.answering q).Covers q.lsn)
    (hcur : (s.answering q).m_current_lsn = q.lsn.toInt32) (hholds : Holds image (s.answering q)) :
    q.Served image s := by
  intro dst' hres i hi
  obtain ⟨-, -, hplace⟩ := request_some hres
  obtain ⟨hndiff, hle⟩ := hopened.copy_le q.mode
  have hlen : 0 ≤ ((s.answering q).copyOf q.mode).length := by omega
  rw [place_eq _ hlen, hopened.readOffset_eq hcov hcur] at hplace
  obtain rfl := Option.some.inj hplace
  have hslot := hholds (q.lsn.toNat - (s.answering q).m_read_lsn.toNat)
    (by have := hcov.1; have := hcov.2; omega)
    (((s.answering q).copyOf q.mode).ndiff.toNat + i) (by omega)
  rw [Nat.add_sub_cancel' hcov.1] at hslot
  rw [placed, if_neg (by omega), if_pos (by omega), Nat.add_sub_cancel_left]
  exact hslot

theorem holds_beginRead2 {f : InputIsoFile} (h : Holds image f) {lsn : UInt32}
    (hprog : (f.beginRead2 lsn).m_read_inprogress = false) : Holds image (f.beginRead2 lsn) := by
  rcases f.beginRead2_cases lsn with ⟨-, heq⟩ | ⟨-, -, heq⟩ | ⟨-, -, heq⟩
  · rw [heq]
    exact h
  · rw [heq]
    exact h
  · rw [heq] at hprog
    cases hprog

/-- A request that starts no read finds its sector in the window, if it can be asked for. -/
theorem buffered_of_beginRead2 {f : InputIsoFile} {lsn : UInt32}
    (hpos : ¬(f.beginRead2 lsn).m_current_lsn < 0)
    (hprog : (f.beginRead2 lsn).m_read_inprogress = false) :
    f.buffered lsn = true ∧ f.m_read_inprogress = false := by
  rcases f.beginRead2_cases lsn with ⟨-, heq⟩ | ⟨-, hbuf, heq⟩ | ⟨-, -, heq⟩
  · rw [heq] at hpos
    exact absurd (by decide : (-1 : Int32) < 0) hpos
  · rw [heq] at hprog
    exact ⟨hbuf, hprog⟩
  · rw [heq] at hprog
    cases hprog

theorem current_of_beginRead2 {f : InputIsoFile} {lsn : UInt32}
    (hpos : ¬(f.beginRead2 lsn).m_current_lsn < 0) :
    ¬f.m_blocks < lsn ∧ (f.beginRead2 lsn).m_current_lsn = lsn.toInt32 := by
  rcases f.beginRead2_cases lsn with ⟨-, heq⟩ | ⟨hle, -, heq⟩ | ⟨hle, -, heq⟩
  · rw [heq] at hpos
    exact absurd (by decide : (-1 : Int32) < 0) hpos
  · rw [heq]
    exact ⟨hle, rfl⟩
  · rw [heq]
    exact ⟨hle, rfl⟩

theorem Inv.holds_answering (h : s.Inv image) (hq : q.Faithful image s) (hharm : q.Harmless s)
    (hpos : ¬(s.file.beginRead2 q.lsn).m_current_lsn < 0)
    (hfin : (s.file.beginRead2 q.lsn).m_read_inprogress = true → 0 ≤ q.fin.1) :
    Holds image (s.answering q) ∧ (s.answering q).Covers q.lsn := by
  obtain ⟨hle, hcur⟩ := current_of_beginRead2 hpos
  obtain ⟨hstale, hend⟩ := hharm.resolve_left (hcur ▸ hpos)
  obtain ⟨-, hread, hcount, -⟩ := answering_same s q
  rw [Covers, hread, hcount]
  cases hprog : (s.file.beginRead2 q.lsn).m_read_inprogress with
  | true =>
    have hcov := beginRead2_covers hle fun heq hunit => hend ⟨heq, hunit, hfin hprog⟩
    refine ⟨?_, hcov.1⟩
    rw [answering_eq, finished, if_pos ⟨hpos, hprog⟩]
    exact hq (hfin hprog)
  | false =>
    obtain ⟨hbuf, hidle⟩ := buffered_of_beginRead2 hpos hprog
    have hfailed : s.failed = false := by
      by_contra hne
      exact hstale ⟨eq_true_of_ne_false hne, hidle, hbuf⟩
    have hnot : ¬(s.file.beginRead2 q.lsn).Finishes := fun hf => by
      rw [Finishes, hprog] at hf
      exact absurd hf.2 (by decide)
    refine ⟨?_, ?_⟩
    · rw [answering_eq, finished, if_neg hnot]
      exact holds_beginRead2 (h.holds hidle hfailed) hprog
    · rcases s.file.beginRead2_cases q.lsn with ⟨hlt, -⟩ | ⟨-, -, heq⟩ | ⟨-, hnb, -⟩
      · exact absurd hlt hle
      · rw [heq]
        exact covers_of_buffered hbuf
      · rw [hbuf] at hnb
        cases hnb

theorem Inv.served (h : s.Inv image) (hq : q.Faithful image s) (hharm : q.Harmless s) :
    q.Served image s := by
  intro dst' hres
  obtain ⟨hpos, hfin, -⟩ := request_some hres
  obtain ⟨hholds, hcov⟩ := h.holds_answering hq hharm hpos hfin
  have hcur := (answering_same s q).1.trans (current_of_beginRead2 hpos).2
  exact served_of_holds (request_opened h.opened q) hcov hcur hholds dst' hres

theorem Inv.request (h : s.Inv image) (hq : q.Faithful image s) (hharm : q.Harmless s) :
    (s.request q).2.Inv image := by
  refine ⟨request_opened h.opened q, fun hidle hfailed => ?_⟩
  change (s.answering q).m_read_inprogress = false at hidle
  change (if (s.file.beginRead2 q.lsn).Finishes then decide (q.fin.1 < 0) else s.failed) = false
    at hfailed
  change Holds image (s.answering q)
  by_cases hf : (s.file.beginRead2 q.lsn).Finishes
  · rw [if_pos hf, decide_eq_false_iff_not, Int.not_lt] at hfailed
    exact (h.holds_answering hq hharm hf.1 fun _ => hfailed).1
  · rw [if_neg hf] at hfailed
    rw [answering_eq, finished, if_neg hf] at hidle ⊢
    have hbefore : s.file.m_read_inprogress = false := by
      rcases s.file.beginRead2_cases q.lsn with ⟨-, heq⟩ | ⟨-, -, heq⟩ | ⟨-, -, heq⟩ <;>
        rw [heq] at hidle
      · exact hidle
      · exact hidle
      · cases hidle
    exact holds_beginRead2 (h.holds hbefore hfailed) hidle

/-- A run of pairs of an opened image, in which no sector of a window that has failed is asked for
and no read of no blocks succeeds: what is served is of the blocks asked for. -/
theorem finishRead3_served {readbuffer : Nat → UInt8} {header : Option (UInt32 × Int)}
    {isCompressed : Bool} {r : ReadSync} {buf : Nat → UInt8} {sectors : Int} {blocks : UInt32}
    {f : InputIsoFile} (h : openFile readbuffer header isCompressed r buf sectors blocks = some f)
    (hs : Relation.ReflTransGen (AsksHarmless image) ⟨f, false⟩ s) (hq : q.Faithful image s)
    (hharm : q.Harmless s) : q.Served image s := by
  obtain ⟨hopened, hcount⟩ := openFile_opened h
  have hinit : Inv image ⟨f, false⟩ := by
    refine ⟨hopened, fun _ _ i hi => ?_⟩
    rw [hcount] at hi
    exact absurd hi (Nat.not_lt_zero i)
  refine (@Run.invariant _ _ (Inv image) ?_ _ _ hs hinit).served hq hharm
  rintro s t hinv ⟨q, hq, hharm, rfl⟩
  exact hinv.request hq hharm

theorem finishRead3_served_isoFile :
    (rawRequest 0).Served (fun _ _ => 7) ⟨isoFile, false⟩ :=
  finishRead3_served (q := rawRequest 0) openFile_isoFile .refl (fun _ _ _ _ _ => rfl)
    (Or.inr ⟨fun h => absurd h.1 (by decide), fun h => absurd h.1 (by decide)⟩)

/-- A request of sector 5 whose read, if there is one, fails. -/
def failingRequest : Request := ⟨5, (-1, fun _ => 0), fun _ => 0, 3⟩

/-- After a read that failed, the same sector is served from the buffer that it left. -/
theorem finishRead3_stale :
    openFile (fun _ => 0) none false isoReader (fun _ => 0) 17 17 = some isoFile ∧
      failingRequest.Faithful (fun _ _ => 1) ⟨isoFile, false⟩ ∧
      ((Reads.mk isoFile false).request failingRequest).1 = some (-1, failingRequest.dst) ∧
      failingRequest.Faithful (fun _ _ => 1) ((Reads.mk isoFile false).request failingRequest).2 ∧
      ¬failingRequest.Served (fun _ _ => 1) ((Reads.mk isoFile false).request failingRequest).2 := by
  refine ⟨rfl, fun h => absurd h (by decide), rfl, fun h => absurd h (by decide), fun hserved => ?_⟩
  have hreq := request_eq ((Reads.mk isoFile false).request failingRequest).2 failingRequest
    (by decide) (by decide)
  have hcopy : (((Reads.mk isoFile false).request failingRequest).2.answering
      failingRequest).copyOf failingRequest.mode = ⟨0, 0, 2048⟩ :=
    (show copyFor (2048, 24) 3 = ⟨0, 0, 2048⟩ from rfl)
  rw [place_eq _ (by rw [hcopy]; decide)] at hreq
  have hone := hserved _ hreq 0 (by rw [hcopy]; decide)
  rw [hcopy, placed, if_neg (by decide), if_pos (by decide)] at hone
  exact absurd hone (by decide)

end Reads

end OmegaRed.CDVD
