import OmegaRed.CDVD.IsoFile
import OmegaRed.Lib.Checksums
import OmegaRed.Lib.Words
import Mathlib.Data.List.GetD

/-! A memory card in a file, and the checksum that is kept of it. -/

namespace OmegaRed.Memcard

open Lib.Memory Lib.Checksums Lib.DWords CDVD

/-- `wxFFile::Write` of some bytes at a position. -/
def fwrite (file : List UInt8) (pos : Nat) (l : List UInt8) : List UInt8 :=
  file.take pos ++ List.replicate (pos - file.length) 0 ++ l ++ file.drop (pos + l.length)

/-- One slot: the file if it is opened, and what is kept beside it. -/
structure FileMemoryCard where
  m_file : Option (List UInt8)
  m_ispsx : Bool
  m_chksum : UInt64

namespace FileMemoryCard

def mcdSize : Nat := 1024 * 8 * 16

/-- `m_effeffs` -/
def effeffs : List UInt8 := List.replicate (528 * 16) 0xFF

/-- Where `Seek` goes in a file. -/
def seek (file : List UInt8) (adr : UInt32) : Nat :=
  let offset :=
    if file.length = mcdSize + 64 then 64
    else if file.length = mcdSize + 3904 then 3904
    else 0
  (adr.toNat + offset) % 2 ^ 32

variable (card : FileMemoryCard)

def read (dest : Nat → UInt8) (adr : UInt32) (size : Nat) : Int × (Nat → UInt8) :=
  match card.m_file with
  | none => (1, store dest 0 (List.replicate size 0))
  | some file =>
    let data := fread file (seek file adr) size
    (if data = [] then 0 else 1, store dest 0 data)

/-- `Save`, with what is in `m_currentdata`. -/
def save (currentdata src : Nat → UInt8) (adr : UInt32) (size : Nat) : Int × FileMemoryCard :=
  match card.m_file with
  | none => (1, card)
  | some file =>
    let pos := seek file adr
    let status : Int := if size = 0 then 0 else 1
    if card.m_ispsx then (status, { card with m_file := some (fwrite file pos (load src 0 size)) })
    else
      let old := store currentdata 0 (fread file pos size)
      let data : Nat → UInt8 := fun i => old i &&& src i
      (status, { card with
        m_file := some (fwrite file pos (load data 0 size))
        m_chksum := checksum (· ^^^ ·) (fun i => loadDWord data (8 * i)) card.m_chksum
          (List.range (size / 8)) })

def eraseBlock (adr : UInt32) : Int × FileMemoryCard :=
  match card.m_file with
  | none => (1, card)
  | some file => (1, { card with m_file := some (fwrite file (seek file adr) effeffs) })

/-- The number of words in the buffer of `GetCRC`. -/
def bufferWords : Nat := 528 * 8

/-- What one pass of the loop makes of the checksum and the buffer. -/
def crcChunk (file : List UInt8) (s : UInt64 × (Nat → UInt8)) (i : Nat) : UInt64 × (Nat → UInt8) :=
  let buffer := store s.2 0 (fread file (i * (8 * bufferWords)) (8 * bufferWords))
  (checksum (· ^^^ ·) (fun t => loadDWord buffer (8 * t)) s.1 (List.range bufferWords), buffer)

/-- `GetCRC`, with what is on the stack at its buffer; a card of the size of `m_ispsx` has no
header. -/
def getCRC (buffer : Nat → UInt8) : UInt64 :=
  match card.m_file with
  | none => 0
  | some file =>
    if card.m_ispsx then
      ((List.range (file.length / (8 * bufferWords))).foldl (crcChunk file) (0, buffer)).1
    else card.m_chksum

/-- Word `k` of a file. -/
def word (file : List UInt8) (k : Nat) : UInt64 := loadDWord (file.getD · 0) (8 * k)

/-- Two files of one length that have the same bytes but for one whole word. -/
structure DifferAt (file file' : List UInt8) (k : Nat) : Prop where
  length : file'.length = file.length
  inside : 8 * k + 8 ≤ file.length
  same : ∀ i, i / 8 ≠ k → file'.getD i 0 = file.getD i 0
  ne : word file' k ≠ word file k

theorem DifferAt.word_eq {file file' : List UInt8} {k j : Nat} (h : DifferAt file file' k)
    (hj : j ≠ k) : word file' j = word file j :=
  loadDWord_congr fun i hi => h.same (8 * j + i) (by omega)

theorem getD_fread (file : List UInt8) (pos : Nat) {n i : Nat} (h : i < n) :
    (fread file pos n).getD i 0 = file.getD (pos + i) 0 := by
  rw [fread, List.getD_eq_getElem?_getD, List.getD_eq_getElem?_getD, List.getElem?_take_of_lt h,
    List.getElem?_drop]

theorem crcChunk_fst {file : List UInt8} {i : Nat}
    (h : (i + 1) * (8 * bufferWords) ≤ file.length) (s : UInt64 × (Nat → UInt8)) :
    (crcChunk file s i).1 =
      checksum (· ^^^ ·) (fun t => word file (i * bufferWords + t)) s.1 (List.range bufferWords) := by
  rw [crcChunk]
  generalize bufferWords = n at h ⊢
  refine checksum_congr (fun t ht => loadDWord_congr fun j hj => ?_) s.1
  have ht := List.mem_range.mp ht
  have hin : 8 * t + j < 8 * n := by omega
  have hpos : i * (8 * n) + (8 * t + j) = 8 * (i * n + t) + j := by
    rw [Nat.mul_add, Nat.mul_left_comm]
    omega
  have hlen : 8 * t + j < (fread file (i * (8 * n)) (8 * n)).length := by
    rw [length_fread]
    rw [Nat.add_mul, Nat.one_mul] at h
    omega
  have hmem := store_of_mem s.2 (a := 0) (List.getElem?_eq_getElem hlen)
  rw [Nat.zero_add, ← List.getD_eq_getElem _ 0 hlen, getD_fread _ _ hin, hpos] at hmem
  exact hmem

theorem crcChunks_fst (file : List UInt8) (n : Nat) (h : n * (8 * bufferWords) ≤ file.length)
    (s : UInt64 × (Nat → UInt8)) : ((List.range n).foldl (crcChunk file) s).1 =
      checksum (· ^^^ ·) (word file) s.1 (List.range (n * bufferWords)) := by
  induction n with
  | zero => rw [Nat.zero_mul]; rfl
  | succ n ih =>
    have hn : n * (8 * bufferWords) ≤ file.length :=
      Nat.le_trans (Nat.mul_le_mul_right _ (Nat.le_succ n)) h
    rw [List.range_succ, List.foldl_append, List.foldl_cons, List.foldl_nil, crcChunk_fst h, ih hn,
      Nat.succ_mul, List.range_add, checksum_append, checksum_map]

/-- The words of a legacy card that `GetCRC` looks at: three chunks. -/
def psxWords : Nat := 3 * bufferWords

theorem getCRC_psx {file : List UInt8} (h : file.length = mcdSize) (c : UInt64)
    (buffer : Nat → UInt8) : getCRC ⟨some file, true, c⟩ buffer =
      checksum (· ^^^ ·) (word file) 0 (List.range psxWords) := by
  have hthree : mcdSize / (8 * bufferWords) = 3 := by decide
  have hle : 3 * (8 * bufferWords) ≤ file.length := by
    rw [h]
    decide
  change ((List.range (file.length / (8 * bufferWords))).foldl (crcChunk file) (0, buffer)).1 = _
  rw [h, hthree]
  exact crcChunks_fst file 3 hle (0, buffer)

theorem xor_ne_self {a b : UInt64} (h : b ≠ 0) : a ^^^ b ≠ a := by
  intro heq
  rw [← UInt64.xor_zero (a := a), UInt64.xor_assoc, UInt64.zero_xor, UInt64.xor_right_inj] at heq
  exact h heq

theorem checksum_xor_ne {g g' : Nat → UInt64} {k n : Nat} (hk : k < n) (hne : g' k ≠ g k)
    (h : ∀ i, i ≠ k → g' i = g i) (s : UInt64) :
    checksum (· ^^^ ·) g' s (List.range n) ≠ checksum (· ^^^ ·) g s (List.range n) := by
  have hd : g' k = g k ^^^ (g k ^^^ g' k) := by
    rw [← UInt64.xor_assoc, UInt64.xor_self, UInt64.zero_xor]
  rw [checksum_change List.nodup_range (List.mem_range.mpr hk) hd h]
  exact xor_ne_self fun hzero => hne (UInt64.xor_eq_zero_iff.mp hzero).symm

theorem getCRC_psx_iff {file file' : List UInt8} (h : file.length = mcdSize) {k : Nat}
    (hk : DifferAt file file' k) (c c' : UInt64) (buffer buffer' : Nat → UInt8) :
    getCRC ⟨some file', true, c'⟩ buffer' ≠ getCRC ⟨some file, true, c⟩ buffer ↔ k < psxWords := by
  rw [getCRC_psx h, getCRC_psx (hk.length.trans h)]
  constructor
  · intro hne
    by_contra hge
    refine hne (checksum_congr (fun j hj => hk.word_eq ?_) 0)
    have := List.mem_range.mp hj
    omega
  · exact fun hlt => checksum_xor_ne hlt hk.ne (fun j hj => hk.word_eq hj) 0

/-- A call that changes the card, with what is in `m_currentdata`. -/
inductive Op
  | save (currentdata src : Nat → UInt8) (adr : UInt32) (size : Nat)
  | eraseBlock (adr : UInt32)

def step (card : FileMemoryCard) : Op → FileMemoryCard
  | .save currentdata src adr size => (card.save currentdata src adr size).2
  | .eraseBlock adr => (card.eraseBlock adr).2

/-- The word is erased: all its bits are set. -/
def allOnes : UInt64 := 0xFFFFFFFFFFFFFFFF

/-- Whole words inside the file are saved, each into an erased word, which it does not leave erased
and does not clear, or into a word that is zero and stays so; what is erased is erased before. -/
def Op.Tracked (file : List UInt8) : Op → Prop
  | .save _ src adr size =>
    8 ∣ seek file adr ∧ 8 ∣ size ∧ seek file adr + size ≤ file.length ∧
      ∀ i < size / 8, (word file (seek file adr / 8 + i) = allOnes ∧ loadDWord src (8 * i) ≠ 0 ∧
        loadDWord src (8 * i) ≠ allOnes) ∨ word file (seek file adr / 8 + i) = 0
  | .eraseBlock adr => seek file adr + effeffs.length ≤ file.length ∧
      ∀ i < effeffs.length, file.getD (seek file adr + i) 0 = 0xFF

theorem length_fwrite {file l : List UInt8} {pos : Nat} (h : pos + l.length ≤ file.length) :
    (fwrite file pos l).length = file.length := by
  simp only [fwrite, List.length_append, List.length_take, List.length_replicate, List.length_drop]
  omega

theorem getD_fwrite {file l : List UInt8} {pos : Nat} (h : pos + l.length ≤ file.length) (i : Nat) :
    (fwrite file pos l).getD i 0 = store (file.getD · 0) pos l i := by
  have hpad : pos - file.length = 0 := by omega
  have htake : (file.take pos).length = pos := by
    rw [List.length_take]
    omega
  rw [fwrite, hpad, List.replicate_zero, List.append_nil, List.append_assoc]
  simp only [List.getD_eq_getElem?_getD]
  by_cases hlt : i < pos
  · rw [List.getElem?_append_left (by omega), List.getElem?_take_of_lt hlt, store_of_lt _ _ hlt]
  · rw [List.getElem?_append_right (by omega), htake]
    by_cases hin : i < pos + l.length
    · obtain ⟨j, rfl⟩ := Nat.exists_eq_add_of_le (Nat.le_of_not_lt hlt)
      have hj : j < l.length := by omega
      rw [Nat.add_sub_cancel_left, List.getElem?_append_left hj,
        store_of_mem _ (List.getElem?_eq_getElem hj), List.getElem?_eq_getElem hj, Option.getD_some]
    · rw [List.getElem?_append_right (by omega), List.getElem?_drop, store_of_ge _ _ (by omega)]
      congr 2
      omega

theorem fwrite_self {file l : List UInt8} {pos : Nat} (h : pos + l.length ≤ file.length)
    (hsame : ∀ i < l.length, file.getD (pos + i) 0 = l.getD i 0) : fwrite file pos l = file := by
  refine List.ext_getElem (length_fwrite h) fun i hi hi' => ?_
  have hget := getD_fwrite h i
  rw [List.getD_eq_getElem _ 0 hi] at hget
  rw [hget, ← List.getD_eq_getElem _ 0 hi']
  by_cases hin : pos ≤ i ∧ i < pos + l.length
  · obtain ⟨j, rfl⟩ := Nat.exists_eq_add_of_le hin.1
    have hj : j < l.length := by omega
    rw [store_of_mem _ (List.getElem?_eq_getElem hj), ← List.getD_eq_getElem _ 0 hj, hsame j hj]
  · by_cases hlt : i < pos
    · rw [store_of_lt _ _ hlt]
    · rw [store_of_ge _ _ (by omega)]

theorem bytes_of_allOnes {file : List UInt8} {k : Nat} (h : word file k = allOnes) :
    ∀ i < 8, file.getD (8 * k + i) 0 = 0xFF := by
  have hones : loadDWord (fun _ => 0xFF) 0 = allOnes := by decide
  exact eq_of_loadDWord_eq (h.trans hones.symm)

theorem bytes_of_zero {file : List UInt8} {k : Nat} (h : word file k = 0) :
    ∀ i < 8, file.getD (8 * k + i) 0 = 0 := by
  have hzero : loadDWord (fun _ => 0) 0 = 0 := by decide
  exact eq_of_loadDWord_eq (h.trans hzero.symm)

/-- What `Save` writes, in a file that has the whole range. -/
def merged (file : List UInt8) (src : Nat → UInt8) (pos i : Nat) : UInt8 :=
  file.getD (pos + i) 0 &&& src i

theorem save_eq {file : List UInt8} (chksum : UInt64) (currentdata src : Nat → UInt8)
    {adr : UInt32} {size : Nat} (h : seek file adr + size ≤ file.length) :
    (save ⟨some file, false, chksum⟩ currentdata src adr size).2 =
      ⟨some (fwrite file (seek file adr) (load (merged file src (seek file adr)) 0 size)), false,
        checksum (· ^^^ ·) (fun i => loadDWord (merged file src (seek file adr)) (8 * i)) chksum
          (List.range (size / 8))⟩ := by
  generalize hpos : seek file adr = pos at h ⊢
  have hold : ∀ i < size, store currentdata 0 (fread file pos size) i &&& src i =
      merged file src pos i := by
    intro i hi
    have hlen : i < (fread file pos size).length := by
      rw [length_fread]
      omega
    have hmem := store_of_mem currentdata (a := 0) (List.getElem?_eq_getElem hlen)
    rw [Nat.zero_add, ← List.getD_eq_getElem _ 0 hlen, getD_fread _ _ hi] at hmem
    rw [hmem, merged]
  have hdata : load (fun i => store currentdata 0 (fread file pos size) i &&& src i) 0 size =
      load (merged file src pos) 0 size := by
    refine load_congr fun i hi => ?_
    rw [Nat.zero_add]
    exact hold i hi
  have hsum : checksum (· ^^^ ·) (fun i => loadDWord
      (fun i => store currentdata 0 (fread file pos size) i &&& src i) (8 * i)) chksum
        (List.range (size / 8)) =
      checksum (· ^^^ ·) (fun i => loadDWord (merged file src pos) (8 * i)) chksum
        (List.range (size / 8)) := by
    refine checksum_congr (fun i hi => loadDWord_congr fun j hj => hold _ ?_) chksum
    have := List.mem_range.mp hi
    omega
  rw [save]
  simp only [hpos, Bool.false_eq_true, if_false, hdata, hsum]

theorem word_fwrite {file : List UInt8} {pos size : Nat} (m : Nat → UInt8) (hpos : 8 ∣ pos)
    (hsize : 8 ∣ size) (h : pos + size ≤ file.length) :
    (∀ i < size / 8, word (fwrite file pos (load m 0 size)) (pos / 8 + i) = loadDWord m (8 * i)) ∧
      ∀ k, k < pos / 8 ∨ pos / 8 + size / 8 ≤ k →
        word (fwrite file pos (load m 0 size)) k = word file k := by
  have hfit : pos + (load m 0 size).length ≤ file.length := by
    rw [length_load]
    exact h
  constructor
  · intro i hi
    refine loadDWord_congr fun j hj => ?_
    rw [getD_fwrite hfit, show 8 * (pos / 8 + i) + j = pos + (8 * i + j) by omega,
      store_of_mem _ (getElem?_load m (show 8 * i + j < size by omega)), Nat.zero_add]
  · intro k hk
    refine loadDWord_congr fun j hj => ?_
    rw [getD_fwrite hfit]
    rcases hk with hlt | hge
    · exact store_of_lt _ _ (by omega)
    · exact store_of_ge _ _ (by rw [length_load]; omega)

/-- What a word adds to the checksum, beside what it was at the start. -/
def gain (file₀ file : List UInt8) (k : Nat) : UInt64 :=
  if word file k = word file₀ k then 0 else word file k

/-- The card is written over the file it had at the start: every word is as it was, or was erased
and has been written. -/
structure Tracks (file₀ : List UInt8) (chksum : UInt64) (card : FileMemoryCard)
    (file : List UInt8) : Prop where
  opened : card.m_file = some file
  ps2 : card.m_ispsx = false
  length : file.length = file₀.length
  words : ∀ k, word file k = word file₀ k ∨
    (word file₀ k = allOnes ∧ word file k ≠ 0 ∧ word file k ≠ allOnes)
  sum : card.m_chksum =
    checksum (· ^^^ ·) (gain file₀ file) chksum (List.range (file₀.length / 8))

theorem gain_of_tracked {file₀ file file' : List UInt8} {k : Nat} {v w : UInt64}
    (hinv : word file k = word file₀ k ∨
      (word file₀ k = allOnes ∧ word file k ≠ 0 ∧ word file k ≠ allOnes))
    (hold : (word file k = allOnes ∧ w ≠ 0 ∧ w ≠ allOnes ∧ v = w) ∨ (word file k = 0 ∧ v = 0))
    (hnew : word file' k = v) :
    gain file₀ file' k = gain file₀ file k ^^^ v ∧
      (word file' k = word file₀ k ∨
        (word file₀ k = allOnes ∧ word file' k ≠ 0 ∧ word file' k ≠ allOnes)) := by
  rcases hold with ⟨hones, hw0, hw1, rfl⟩ | ⟨hzero, rfl⟩
  · have hstart : word file₀ k = allOnes := by
      rcases hinv with heq | ⟨-, -, hne⟩
      · exact heq.symm.trans hones
      · exact absurd hones hne
    refine ⟨?_, Or.inr ⟨hstart, hnew ▸ hw0, hnew ▸ hw1⟩⟩
    rw [gain, gain, hnew, hstart, hones, if_neg hw1, if_pos rfl, UInt64.zero_xor]
  · have hsame : word file' k = word file k := hnew.trans hzero.symm
    rw [gain, gain, hsame, UInt64.xor_zero]
    exact ⟨rfl, hinv⟩

theorem Tracks.save {file₀ file : List UInt8} {c : UInt64} {card : FileMemoryCard}
    (h : Tracks file₀ c card file) {currentdata src : Nat → UInt8} {adr : UInt32} {size : Nat}
    (hop : Op.Tracked file (.save currentdata src adr size)) :
    ∃ file', Tracks file₀ c (card.save currentdata src adr size).2 file' := by
  obtain ⟨opened, ps2, chksum⟩ := card
  obtain rfl : opened = some file := h.opened
  obtain rfl : ps2 = false := h.ps2
  obtain ⟨hpos, hsize, hfit, hwords⟩ := hop
  rw [save_eq _ _ _ hfit]
  generalize seek file adr = pos at hpos hfit hwords ⊢
  obtain ⟨hin, hout⟩ := word_fwrite (merged file src pos) hpos hsize hfit
  have hlen : (fwrite file pos (load (merged file src pos) 0 size)).length = file.length :=
    length_fwrite (by rw [length_load]; exact hfit)
  generalize fwrite file pos (load (merged file src pos) 0 size) = file' at hin hout hlen ⊢
  have hold : ∀ i < size / 8, (word file (pos / 8 + i) = allOnes ∧ loadDWord src (8 * i) ≠ 0 ∧
      loadDWord src (8 * i) ≠ allOnes ∧
        loadDWord (merged file src pos) (8 * i) = loadDWord src (8 * i)) ∨
      (word file (pos / 8 + i) = 0 ∧ loadDWord (merged file src pos) (8 * i) = 0) := by
    intro i hi
    have haddr : ∀ j, 8 * (pos / 8 + i) + j = pos + (8 * i + j) := fun j => by omega
    rcases hwords i hi with ⟨hones, hne0, hne1⟩ | hzero
    · refine Or.inl ⟨hones, hne0, hne1, loadDWord_congr fun j hj => ?_⟩
      have hbyte := bytes_of_allOnes hones j hj
      rw [haddr] at hbyte
      rw [merged, hbyte]
      exact UInt8.neg_one_and
    · have hmerged : loadDWord (merged file src pos) (8 * i) = loadDWord (fun _ => 0) 0 := by
        refine loadDWord_congr fun j hj => ?_
        have hbyte := bytes_of_zero hzero j hj
        rw [haddr] at hbyte
        rw [merged, hbyte]
        exact UInt8.zero_and
      exact Or.inr ⟨hzero, hmerged.trans (by decide)⟩
  have hstep := fun i hi => gain_of_tracked (h.words (pos / 8 + i)) (hold i hi) (hin i hi)
  have hsum : checksum (· ^^^ ·) (gain file₀ file') c (List.range (file₀.length / 8)) = _ :=
    checksum_change_range (by have := h.length; omega) (fun i hi => (hstep i hi).1)
      (fun k hk => by rw [gain, gain, hout k hk]) c
  refine ⟨file', rfl, rfl, hlen.trans h.length, fun k => ?_, ?_⟩
  · by_cases hk : k < pos / 8 ∨ pos / 8 + size / 8 ≤ k
    · rw [hout k hk]
      exact h.words k
    · obtain ⟨i, rfl⟩ := Nat.exists_eq_add_of_le (show pos / 8 ≤ k by omega)
      exact (hstep i (by omega)).2
  · rw [hsum, ← h.sum]

theorem eraseBlock_eq (file : List UInt8) (ps2 : Bool) (c : UInt64) (adr : UInt32) :
    (eraseBlock ⟨some file, ps2, c⟩ adr).2 = ⟨some (fwrite file (seek file adr) effeffs), ps2, c⟩ :=
  rfl

theorem getCRC_ps2 (file : List UInt8) (c : UInt64) (buffer : Nat → UInt8) :
    getCRC ⟨some file, false, c⟩ buffer = c := rfl

theorem Tracks.eraseBlock {file₀ file : List UInt8} {c : UInt64} {card : FileMemoryCard}
    (h : Tracks file₀ c card file) {adr : UInt32} (hop : Op.Tracked file (.eraseBlock adr)) :
    Tracks file₀ c (card.eraseBlock adr).2 file := by
  obtain ⟨opened, ps2, chksum⟩ := card
  obtain rfl : opened = some file := h.opened
  have hself : fwrite file (seek file adr) effeffs = file := by
    refine fwrite_self hop.1 fun i hi => (hop.2 i hi).trans ?_
    rw [effeffs, List.getD_replicate _ (by rwa [effeffs, List.length_replicate] at hi)]
  rw [eraseBlock_eq, hself]
  exact h

/-- A run in which every call finds the file as tracking asks. -/
inductive TrackedRun : FileMemoryCard → FileMemoryCard → Prop
  | refl (card : FileMemoryCard) : TrackedRun card card
  | tail {card card' : FileMemoryCard} {file : List UInt8} (op : Op) (h : TrackedRun card card')
      (hfile : card'.m_file = some file) (hop : op.Tracked file) : TrackedRun card (card'.step op)

theorem TrackedRun.tracks {file₀ : List UInt8} {c : UInt64} {card : FileMemoryCard}
    (h : TrackedRun ⟨some file₀, false, c⟩ card) : ∃ file, Tracks file₀ c card file := by
  generalize hstart : (⟨some file₀, false, c⟩ : FileMemoryCard) = start at h
  induction h with
  | refl =>
    subst hstart
    refine ⟨file₀, rfl, rfl, rfl, fun k => Or.inl rfl, ?_⟩
    refine (checksum_unit (fun k _ a => ?_) c).symm
    rw [gain, if_pos rfl, UInt64.xor_zero]
  | tail op h hfile hop ih =>
    obtain ⟨file, htracks⟩ := ih
    obtain rfl := Option.some.inj (htracks.opened.symm.trans hfile)
    cases op with
    | save currentdata src adr size => exact htracks.save hop
    | eraseBlock adr => exact ⟨file, htracks.eraseBlock hop⟩

theorem Tracks.gain_ne {file₀ file file' : List UInt8} {c : UInt64} {card card' : FileMemoryCard}
    (h : Tracks file₀ c card file) (h' : Tracks file₀ c card' file') {k : Nat}
    (hne : word file' k ≠ word file k) : gain file₀ file' k ≠ gain file₀ file k := by
  rw [gain, gain]
  split_ifs with heq' heq heq
  · exact absurd (heq'.trans heq.symm) hne
  · exact ((h.words k).resolve_left heq).2.1.symm
  · exact ((h'.words k).resolve_left heq').2.1
  · exact hne

/-- A change of one word of a legacy card is seen exactly when the word is in the three chunks that
`GetCRC` reads.  Tracked runs of a PS2 card end with one checksum for one file, and with different
ones for files that differ in one word. -/
theorem getCRC_detects (buffer buffer' : Nat → UInt8) :
    (∀ (file file' : List UInt8) (k : Nat), file.length = mcdSize → DifferAt file file' k →
      ∀ c c',
        (getCRC ⟨some file', true, c'⟩ buffer' ≠ getCRC ⟨some file, true, c⟩ buffer ↔
          k < psxWords)) ∧
    ∀ (file₀ : List UInt8) (c : UInt64) (card card' : FileMemoryCard),
      TrackedRun ⟨some file₀, false, c⟩ card → TrackedRun ⟨some file₀, false, c⟩ card' →
      ∀ file file', card.m_file = some file → card'.m_file = some file' →
        (file' = file → card'.getCRC buffer' = card.getCRC buffer) ∧
        ∀ k, DifferAt file file' k → card'.getCRC buffer' ≠ card.getCRC buffer := by
  refine ⟨fun file file' k h hk c c' => getCRC_psx_iff h hk c c' buffer buffer', ?_⟩
  intro file₀ c card card' hrun hrun' file file' hfile hfile'
  obtain ⟨g, htracks⟩ := hrun.tracks
  obtain ⟨g', htracks'⟩ := hrun'.tracks
  obtain rfl := Option.some.inj (htracks.opened.symm.trans hfile)
  obtain rfl := Option.some.inj (htracks'.opened.symm.trans hfile')
  have hcrc : ∀ {card : FileMemoryCard} {f : List UInt8} (b : Nat → UInt8),
      Tracks file₀ c card f → card.getCRC b =
        checksum (· ^^^ ·) (gain file₀ f) c (List.range (file₀.length / 8)) := by
    intro card f b ht
    rw [← ht.sum, getCRC, ht.opened, ht.ps2]
    rfl
  rw [hcrc _ htracks, hcrc _ htracks']
  refine ⟨fun heq => by rw [heq], fun k hk => ?_⟩
  have hin : k < file₀.length / 8 := by
    have := hk.inside
    have := htracks.length
    omega
  refine checksum_xor_ne hin (htracks.gain_ne htracks' hk.ne) (fun j hj => ?_) c
  rw [gain, gain, hk.word_eq hj]

theorem differAt_set {file : List UInt8} {i : Nat} (h : 8 * (i / 8) + 8 ≤ file.length) {v : UInt8}
    (hv : v ≠ file.getD i 0) : DifferAt file (file.set i v) (i / 8) := by
  have hi : i < file.length := by omega
  have hat : (file.set i v).getD i 0 = v := by
    rw [List.getD_eq_getElem?_getD, List.getElem?_set_self hi, Option.getD_some]
  refine ⟨List.length_set, h, fun j hj => ?_, fun heq => hv ?_⟩
  · rw [List.getD_eq_getElem?_getD, List.getD_eq_getElem?_getD,
      List.getElem?_set_ne (by rintro rfl; exact hj rfl)]
  · have hbyte := eq_of_loadDWord_eq heq (i % 8) (Nat.mod_lt i (by decide))
    simp only [Nat.div_add_mod] at hbyte
    exact hat.symm.trans hbyte

/-- An empty legacy card. -/
def psxImage : List UInt8 := List.replicate mcdSize 0

theorem length_psxImage : psxImage.length = mcdSize := List.length_replicate

/-- An erased card of eight megabytes. -/
def erasedImage : List UInt8 := List.replicate (1024 * 528 * 2 * 8) 0xFF

theorem length_erasedImage : erasedImage.length = 1024 * 528 * 2 * 8 := List.length_replicate

theorem getD_erasedImage {i : Nat} (h : i < 1024 * 528 * 2 * 8) : erasedImage.getD i 0 = 0xFF :=
  List.getD_replicate _ h

theorem seek_erasedImage : seek erasedImage 0 = 0 := by
  rw [seek, length_erasedImage]
  decide

/-- The card after `Save` has written eight ones to its start. -/
def savedCard (card : FileMemoryCard) : FileMemoryCard :=
  (card.save (fun _ => 0) (fun _ => 1) 0 8).2

theorem savedCard_eq {file : List UInt8} (hseek : seek file 0 = 0) (hlen : 8 ≤ file.length)
    (hbit : ∀ i < 8, file.getD i 0 &&& 1 = 1) (c : UInt64) :
    savedCard ⟨some file, false, c⟩ =
      ⟨some (fwrite file 0 (List.replicate 8 1)), false, c ^^^ 0x0101010101010101⟩ := by
  have hmerged : ∀ i < 8, merged file (fun _ => 1) 0 i = 1 := by
    intro i hi
    rw [merged, Nat.zero_add]
    exact hbit i hi
  have hload : load (merged file (fun _ => 1) 0) 0 8 = List.replicate 8 1 :=
    (load_congr fun i hi => by rw [Nat.zero_add]; exact hmerged i hi).trans
      (show load (fun _ => (1 : UInt8)) 0 8 = List.replicate 8 1 by decide)
  have hword : loadDWord (merged file (fun _ => 1) 0) 0 = 0x0101010101010101 :=
    (loadDWord_congr fun i hi => by rw [Nat.zero_add]; exact hmerged i hi).trans
      (show loadDWord (fun _ => 1) 0 = 0x0101010101010101 by decide)
  rw [savedCard, save_eq _ _ _ (by rw [hseek]; exact hlen), hseek, hload]
  change (⟨_, _, c ^^^ loadDWord (merged file (fun _ => 1) 0) 0⟩ : FileMemoryCard) = _
  rw [hword]

def savedImage : List UInt8 := fwrite erasedImage 0 (List.replicate 8 1)

theorem length_savedImage : savedImage.length = 1024 * 528 * 2 * 8 := by
  rw [savedImage, length_fwrite (by rw [length_erasedImage, List.length_replicate]; decide),
    length_erasedImage]

theorem getD_savedImage (i : Nat) :
    savedImage.getD i 0 = store (erasedImage.getD · 0) 0 (List.replicate 8 1) i :=
  getD_fwrite (by rw [length_erasedImage, List.length_replicate]; decide) i

theorem getD_savedImage_of_lt {i : Nat} (h : i < 8) : savedImage.getD i 0 = 1 := by
  have hmem := store_of_mem (erasedImage.getD · 0) (a := 0)
    (List.getElem?_replicate_of_lt (a := (1 : UInt8)) h)
  rw [getD_savedImage]
  rwa [Nat.zero_add] at hmem

theorem savedCard_erasedImage (c : UInt64) : savedCard ⟨some erasedImage, false, c⟩ =
    ⟨some savedImage, false, c ^^^ 0x0101010101010101⟩ :=
  savedCard_eq seek_erasedImage (by rw [length_erasedImage]; decide)
    (fun i hi => by rw [getD_erasedImage (by omega)]; decide) c

theorem savedCard_savedImage (c : UInt64) : savedCard ⟨some savedImage, false, c⟩ =
    ⟨some savedImage, false, c ^^^ 0x0101010101010101⟩ := by
  have hseek : seek savedImage 0 = 0 := by
    rw [seek, length_savedImage]
    decide
  rw [savedCard_eq hseek (by rw [length_savedImage]; decide)
    (fun i hi => by rw [getD_savedImage_of_lt hi]; decide) c]
  rw [fwrite_self (by rw [length_savedImage, List.length_replicate]; decide) fun i hi => ?_]
  have hi8 : i < 8 := by rwa [List.length_replicate] at hi
  rw [Nat.zero_add, getD_savedImage_of_lt hi8, List.getD_replicate _ hi8]

theorem differAt_savedImage : DifferAt erasedImage savedImage 0 := by
  refine ⟨?_, ?_, fun i hi => ?_, fun heq => ?_⟩
  · rw [length_savedImage, length_erasedImage]
  · rw [length_erasedImage]
    decide
  · rw [getD_savedImage, store_of_ge _ _ (by rw [List.length_replicate]; omega)]
  · have hbyte := eq_of_loadDWord_eq heq 0 (by decide)
    rw [Nat.mul_zero, Nat.zero_add, getD_savedImage_of_lt (by decide),
      getD_erasedImage (by decide)] at hbyte
    exact absurd hbyte (by decide)

theorem getCRC_detects_images (buffer : Nat → UInt8) :
    getCRC ⟨some (psxImage.set 0 1), true, 0⟩ buffer ≠ getCRC ⟨some psxImage, true, 0⟩ buffer ∧
      (savedCard ⟨some erasedImage, false, 0⟩).getCRC buffer ≠
        getCRC ⟨some erasedImage, false, 0⟩ buffer := by
  constructor
  · refine ((getCRC_detects buffer buffer).1 psxImage _ 0 length_psxImage (differAt_set ?_ ?_)
      0 0).mpr (by decide)
    · rw [length_psxImage]
      decide
    · rw [psxImage, List.getD_replicate _ (by decide)]
      decide
  · have hones : word erasedImage 0 = allOnes :=
      (loadDWord_congr fun i hi => getD_erasedImage (by omega)).trans
        (show loadDWord (fun _ => 0xFF) 0 = allOnes by decide)
    have hop : Op.Tracked erasedImage (.save (fun _ => 0) (fun _ => 1) 0 8) := by
      refine ⟨by rw [seek_erasedImage]; decide, by decide, ?_, fun i hi => Or.inl ⟨?_, ?_, ?_⟩⟩
      · rw [seek_erasedImage, length_erasedImage]
        decide
      · obtain rfl : i = 0 := by omega
        rw [seek_erasedImage]
        exact hones
      · obtain rfl : i = 0 := by omega
        decide
      · obtain rfl : i = 0 := by omega
        decide
    have hstart := TrackedRun.refl ⟨some erasedImage, false, 0⟩
    have hsaved := savedCard_erasedImage 0
    exact ((getCRC_detects buffer buffer).2 erasedImage 0 _ (savedCard _) hstart
      (.tail _ hstart rfl hop) _ savedImage rfl (congrArg m_file hsaved)).2 0 differAt_savedImage

/-- The last byte of a legacy card, the block that is erased but for one byte, and saving the same
bytes once and twice. -/
theorem getCRC_misses :
    (DifferAt psxImage (psxImage.set 131071 1) 16383 ∧
      getCRC ⟨some (psxImage.set 131071 1), true, 0⟩ (fun _ => 0) =
        getCRC ⟨some psxImage, true, 0⟩ (fun _ => 0)) ∧
    (∃ file, (eraseBlock ⟨some (erasedImage.set 0 0), false, 0⟩ 0).2.m_file = some file ∧
      DifferAt (erasedImage.set 0 0) file 0 ∧
      (eraseBlock ⟨some (erasedImage.set 0 0), false, 0⟩ 0).2.getCRC (fun _ => 0) =
        getCRC ⟨some (erasedImage.set 0 0), false, 0⟩ (fun _ => 0)) ∧
    ((savedCard (savedCard ⟨some erasedImage, false, 0⟩)).m_file =
        (savedCard ⟨some erasedImage, false, 0⟩).m_file ∧
      (savedCard (savedCard ⟨some erasedImage, false, 0⟩)).getCRC (fun _ => 0) ≠
        (savedCard ⟨some erasedImage, false, 0⟩).getCRC (fun _ => 0)) := by
  refine ⟨?_, ?_, ?_⟩
  · have hdiffer : DifferAt psxImage (psxImage.set 131071 1) 16383 := by
      refine differAt_set (i := 131071) ?_ ?_
      · rw [length_psxImage]
        decide
      · rw [psxImage, List.getD_replicate _ (by decide)]
        decide
    refine ⟨hdiffer, ?_⟩
    by_contra hne
    exact absurd ((getCRC_psx_iff length_psxImage hdiffer 0 0 _ _).mp hne) (by decide)
  · have hseek : seek (erasedImage.set 0 0) 0 = 0 := by
      rw [seek, List.length_set, length_erasedImage]
      decide
    have heff : effeffs.length = 528 * 16 := List.length_replicate
    have hfit : 0 + effeffs.length ≤ (erasedImage.set 0 0).length := by
      rw [heff, List.length_set, length_erasedImage]
      decide
    rw [eraseBlock_eq, hseek]
    refine ⟨_, rfl, ⟨length_fwrite hfit, ?_, ?_, ?_⟩, ?_⟩
    · rw [List.length_set, length_erasedImage]
      decide
    · intro i hi
      rw [getD_fwrite hfit]
      by_cases hlt : i < 528 * 16
      · have hmem := store_of_mem ((erasedImage.set 0 0).getD · 0) (a := 0)
          (List.getElem?_replicate_of_lt (a := (0xFF : UInt8)) hlt)
        rw [Nat.zero_add] at hmem
        have hrest : (erasedImage.set 0 0).getD i 0 = 0xFF := by
          rw [List.getD_eq_getElem?_getD, List.getElem?_set_ne (by omega),
            ← List.getD_eq_getElem?_getD, getD_erasedImage (by omega)]
        exact hmem.trans hrest.symm
      · exact store_of_ge _ _ (by rw [heff]; omega)
    · intro heq
      have hbyte := eq_of_loadDWord_eq heq 0 (by decide)
      have hmem := store_of_mem ((erasedImage.set 0 0).getD · 0) (a := 0) (i := 0)
        (List.getElem?_replicate_of_lt (a := (0xFF : UInt8)) (show 0 < 528 * 16 by decide))
      rw [Nat.mul_zero, Nat.add_zero, getD_fwrite hfit, List.getD_eq_getElem?_getD (a := 0),
        List.getElem?_set_self (by rw [length_erasedImage]; decide), Option.getD_some] at hbyte
      exact absurd (hmem.symm.trans hbyte) (by decide)
    · rw [getCRC_ps2, getCRC_ps2]
  · rw [savedCard_erasedImage, savedCard_savedImage]
    exact ⟨rfl, show (0 ^^^ 0x0101010101010101 ^^^ 0x0101010101010101 : UInt64) ≠
      0 ^^^ 0x0101010101010101 by decide⟩

end FileMemoryCard

end OmegaRed.Memcard
