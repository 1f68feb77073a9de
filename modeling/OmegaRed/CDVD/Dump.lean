import OmegaRed.Lib.Pieces
import Mathlib.Data.List.Induction
import Mathlib.Data.List.Nodup
import OmegaRed.CDVD.IsoFile

/-! Blockdumps: `OutputIsoFile` writes the sectors it is given with their numbers,
`BlockdumpFileReader` reads the numbers into a table and finds sectors by it. -/

namespace OmegaRed.CDVD

open Lib.Memory Lib.Words

/-- A `wxFileOutputStream`. -/
structure OutputStream where
  data : List UInt8
  pos : Nat

def OutputStream.write (s : OutputStream) (l : List UInt8) : OutputStream where
  data := s.data.take s.pos ++ List.replicate (s.pos - s.data.length) 0 ++ l ++
    s.data.drop (s.pos + l.length)
  pos := s.pos + l.length

def OutputStream.seekO (s : OutputStream) (ofs : Int) : OutputStream :=
  if 0 ≤ ofs then { s with pos := ofs.toNat } else s

structure OutputIsoFile where
  version : Nat
  offset : Int32
  blockofs : Int32
  blocksize : UInt32
  blocks : UInt32
  dtable : List UInt32
  outstream : OutputStream

/-- `BDV2`. -/
def bdv2Magic : List UInt8 := [0x42, 0x44, 0x56, 0x32]

namespace OutputIsoFile

def create (version : Nat) : OutputIsoFile := ⟨version, 0, 24, 2048, 0, [], ⟨[], 0⟩⟩

def writeBuffer (o : OutputIsoFile) (l : List UInt8) : OutputIsoFile :=
  { o with outstream := o.outstream.write l }

def writeValue (o : OutputIsoFile) (x : UInt32) : OutputIsoFile := o.writeBuffer (bytes x)

def writeHeader (o : OutputIsoFile) (blockofs : Int32) (blocksize blocks : UInt32) :
    OutputIsoFile :=
  let o := { o with blocksize := blocksize, blocks := blocks, blockofs := blockofs }
  if o.version = 2 then
    (((o.writeBuffer bdv2Magic).writeValue o.blocksize).writeValue o.blocks).writeValue
      o.blockofs.toUInt32
  else o

/-- The `m_blocksize` bytes at `src + m_blockofs`. -/
def payload (o : OutputIsoFile) (src : Int → UInt8) : List UInt8 :=
  (List.range o.blocksize.toNat).map fun (i : Nat) => src (o.blockofs.toInt + i)

def writeSector (o : OutputIsoFile) (src : Int → UInt8) (lsn : UInt32) : OutputIsoFile :=
  if o.version = 2 then
    if o.dtable.any (· = lsn) then o
    else
      let o := { o with dtable := o.dtable ++ [lsn] }
      (o.writeValue lsn).writeBuffer (o.payload src)
  else
    let ofs : Int := lsn.toNat * o.blocksize.toNat + o.offset.toInt
    { o with outstream := (o.outstream.seekO ofs).write (o.payload src) }

end OutputIsoFile

def blockDumpHeaderSize : Nat := 16

structure BlockdumpFileReader where
  blocksize : UInt32
  blocks : UInt32
  blockofs : Int32
  dtable : Nat → UInt32
  dtablesize : Nat
  src : List UInt8

namespace BlockdumpFileReader

/-- The size of a window that the table is read through. -/
def bs : Nat := 1024 * 1024

/-- The inner loop of `Open` over what one `Read` has left in the buffer. -/
def fillWindow (blocksize dtablesize : Nat) (buffer : Nat → UInt8) (has : Nat)
    (dtable : Nat → UInt32) (i off : Nat) : (Nat → UInt32) × Nat × Nat :=
  if i < dtablesize ∧ off < has then
    fillWindow blocksize dtablesize buffer has
      (Function.update dtable i (loadWord buffer off)) (i + 1) ((off + 4 + blocksize) % 2 ^ 32)
  else (dtable, i, off)
termination_by dtablesize - i

/-- The outer loop.  `buffer` from `bs` on is the memory behind the buffer. -/
def fillTable (src : List UInt8) (blocksize dtablesize : Nat) (buffer : Nat → UInt8) (pos : Nat)
    (dtable : Nat → UInt32) (i off : Nat) : Nat → UInt32 :=
  let data := fread src pos bs
  let has := data.length
  let buffer := store buffer 0 data
  let res := fillWindow blocksize dtablesize buffer has dtable i off
  if _ : has = bs then
    fillTable src blocksize dtablesize buffer (pos + has) res.1 res.2.1
      ((res.2.2 + 2 ^ 32 - has) % 2 ^ 32)
  else res.1
termination_by src.length - pos
decreasing_by
  have hfull : (fread src pos bs).length = bs := ‹has = bs›
  have hlen := length_fread src pos bs
  have hpos : 0 < bs := by decide
  omega

/-- What is in memory that `Open` has not set: the table, the buffer and what is behind it. -/
structure Uninit where
  dtable : Nat → UInt32
  buffer : Nat → UInt8

/-- The static local `datalen` of `Open` after a call: the first one that gets there sets it. -/
def keepDatalen (datalen : Option Int) (src : List UInt8) : Option Int :=
  if fread src 0 4 ≠ bdv2Magic then datalen
  else some (datalen.getD (src.length - blockDumpHeaderSize))

/-- `Open` with the static local as it was; a table of negative size throws, as does a
division by zero. -/
def openFile (datalen : Option Int) (mem : Uninit) (src : List UInt8) :
    Option BlockdumpFileReader :=
  if fread src 0 4 ≠ bdv2Magic then none
  else
    let blocksize := u32At src 4
    let width : Nat := (blocksize.toNat + 4) % 2 ^ 32
    let dtablesize : Int :=
      ((datalen.getD (src.length - blockDumpHeaderSize)).tdiv width).bmod (2 ^ 32)
    if width = 0 ∨ dtablesize < 0 then none
    else some {
      blocksize := blocksize
      blocks := u32At src 8
      blockofs := (u32At src 12).toInt32
      dtable := fillTable src blocksize.toNat dtablesize.toNat mem.buffer blockDumpHeaderSize
        mem.dtable 0 0
      dtablesize := dtablesize.toNat
      src := src }

/-- The search loop of `ReadSync`. -/
def find (r : BlockdumpFileReader) (lsn : UInt32) : Option Nat :=
  (List.range r.dtablesize).find? fun i => r.dtable i = lsn

/-- Where `ReadSync` seeks for an entry, in 32 bits. -/
def seekPos (r : BlockdumpFileReader) (i : Nat) : Nat :=
  (blockDumpHeaderSize + i * (r.blocksize.toNat + 4) + 4) % 2 ^ 32

/-- `ReadSync` to `dst + ofs`. -/
def readFrom (r : BlockdumpFileReader) (dst : Nat → UInt8) (ofs : Nat) (lsn : UInt32) :
    Nat → Int × (Nat → UInt8)
  | 0 => (0, dst)
  | count + 1 =>
    match r.find lsn with
    | none => (-1, dst)
    | some i =>
      let data := fread r.src (r.seekPos i) r.blocksize.toNat
      r.readFrom (store dst ofs data) (ofs + r.blocksize.toNat) (lsn + 1) count

def readSync (r : BlockdumpFileReader) (dst : Nat → UInt8) (lsn : UInt32) (count : Nat) :
    Int × (Nat → UInt8) :=
  r.readFrom dst 0 lsn count

end BlockdumpFileReader

end OmegaRed.CDVD

/-! What is in a blockdump: the first write of every sector, in the order of writing. -/

namespace OmegaRed.CDVD

open Lib.Memory Lib.Words Lib.Blocks

/-- A sector number and the bytes written for it. -/
abbrev Entry := UInt32 × List UInt8

def Entry.record (e : Entry) : List UInt8 := bytes e.1 ++ e.2

/-- What is kept of one more write. -/
def keep (es : List Entry) (e : Entry) : List Entry :=
  if es.any (·.1 = e.1) then es else es ++ [e]

/-- What is kept of a sequence of writes. -/
def recorded (ws : List Entry) : List Entry := ws.foldl keep []

def lookup (es : List Entry) (lsn : UInt32) : Option (List UInt8) :=
  (es.find? (·.1 = lsn)).map (·.2)

theorem lookup_eq_none_iff {es : List Entry} {lsn : UInt32} :
    lookup es lsn = none ↔ ∀ e, e ∈ es → e.1 ≠ lsn := by
  rw [lookup, Option.map_eq_none_iff, List.find?_eq_none]
  exact forall₂_congr fun e _ => by rw [decide_eq_true_iff]

theorem lookup_eq_some_iff {es : List Entry} (h : (es.map (·.1)).Nodup) {lsn : UInt32}
    {data : List UInt8} : lookup es lsn = some data ↔ (lsn, data) ∈ es := by
  constructor
  · intro hlookup
    obtain ⟨e, hfind, rfl⟩ := Option.map_eq_some_iff.mp hlookup
    have hlsn : e.1 = lsn := by simpa using List.find?_some hfind
    rw [← hlsn]
    exact List.mem_of_find?_eq_some hfind
  · intro hmem
    cases hlookup : lookup es lsn with
    | none => exact absurd rfl (lookup_eq_none_iff.mp hlookup _ hmem)
    | some data' =>
      obtain ⟨e, hfind, rfl⟩ := Option.map_eq_some_iff.mp hlookup
      have hlsn : e.1 = lsn := by simpa using List.find?_some hfind
      rw [List.inj_on_of_nodup_map h (List.mem_of_find?_eq_some hfind) hmem hlsn]

theorem recorded_concat (ws : List Entry) (e : Entry) :
    recorded (ws ++ [e]) = keep (recorded ws) e := by
  rw [recorded, List.foldl_append]
  rfl

theorem lookup_keep (es : List Entry) (e : Entry) (lsn : UInt32) :
    lookup (keep es e) lsn = lookup (es ++ [e]) lsn := by
  rw [keep]
  split
  · rename_i hany
    rw [lookup, lookup, List.find?_append]
    cases hfind : es.find? (·.1 = lsn) with
    | some e' => rfl
    | none =>
      have hne : e.1 ≠ lsn := by
        rintro rfl
        obtain ⟨e', hmem, heq⟩ := List.any_eq_true.mp hany
        exact List.find?_eq_none.mp hfind e' hmem heq
      simp [hne]
  · rfl

theorem lookup_recorded (ws : List Entry) (lsn : UInt32) :
    lookup (recorded ws) lsn = lookup ws lsn := by
  induction ws using List.reverseRecOn with
  | nil => rfl
  | append_singleton ws e ih =>
    rw [recorded_concat, lookup_keep, lookup, lookup, List.find?_append, List.find?_append,
      Option.map_or, Option.map_or]
    change (lookup (recorded ws) lsn).or _ = (lookup ws lsn).or _
    rw [ih]

theorem nodup_recorded (ws : List Entry) : ((recorded ws).map (·.1)).Nodup := by
  induction ws using List.reverseRecOn with
  | nil => exact List.nodup_nil
  | append_singleton ws e ih =>
    rw [recorded_concat, keep]
    split
    · exact ih
    · rename_i hany
      rw [List.map_append, List.nodup_append]
      refine ⟨ih, List.nodup_singleton _, ?_⟩
      rintro a ha b hb rfl
      obtain ⟨e', hmem, rfl⟩ := List.mem_map.mp ha
      rw [List.map_singleton, List.mem_singleton] at hb
      exact hany (List.any_eq_true.mpr ⟨e', hmem, by simpa using hb⟩)

theorem mem_of_mem_recorded {ws : List Entry} {e : Entry} (h : e ∈ recorded ws) : e ∈ ws := by
  induction ws using List.reverseRecOn with
  | nil => exact h
  | append_singleton ws e' ih =>
    rw [recorded_concat, keep] at h
    rw [List.mem_append]
    split at h
    · exact .inl (ih h)
    · rw [List.mem_append] at h
      exact h.imp_left ih

/-- The header of a version 2 file. -/
def dumpHeader (blockofs : Int32) (blocksize blocks : UInt32) : List UInt8 :=
  bdv2Magic ++ bytes blocksize ++ bytes blocks ++ bytes blockofs.toUInt32

/-- A file that holds these entries. -/
def dump (blockofs : Int32) (blocksize blocks : UInt32) (es : List Entry) : List UInt8 :=
  dumpHeader blockofs blocksize blocks ++ (es.map Entry.record).flatten

theorem OutputStream.write_end (data l : List UInt8) :
    write ⟨data, data.length⟩ l = ⟨data ++ l, (data ++ l).length⟩ := by
  have hdrop : data.drop (data.length + l.length) = [] := List.drop_eq_nil_of_le (by omega)
  rw [write, hdrop, List.take_length, Nat.sub_self, List.replicate_zero, List.append_nil,
    List.append_nil, List.length_append]

namespace OutputIsoFile

/-- What is written for a sector. -/
def entry (blockofs : Int32) (blocksize : UInt32) (w : UInt32 × (Int → UInt8)) : Entry :=
  (w.1, (List.range blocksize.toNat).map fun (i : Nat) => w.2 (blockofs.toInt + i))

/-- The calls of `WriteSector`. -/
def writeSectors (o : OutputIsoFile) (ws : List (UInt32 × (Int → UInt8))) : OutputIsoFile :=
  ws.foldl (fun o w => o.writeSector w.2 w.1) o

/-- The file is a version 2 file in which these entries have been written. -/
def Written (blockofs : Int32) (blocksize blocks : UInt32) (o : OutputIsoFile)
    (es : List Entry) : Prop :=
  o.version = 2 ∧ o.blockofs = blockofs ∧ o.blocksize = blocksize ∧ o.dtable = es.map (·.1) ∧
    o.outstream = ⟨dump blockofs blocksize blocks es, (dump blockofs blocksize blocks es).length⟩

variable {blockofs : Int32} {blocksize blocks : UInt32} {o : OutputIsoFile} {es : List Entry}

theorem written_writeHeader :
    Written blockofs blocksize blocks ((create 2).writeHeader blockofs blocksize blocks) [] := by
  refine ⟨rfl, rfl, rfl, rfl, ?_⟩
  simp only [writeHeader, create, if_true, writeValue, writeBuffer]
  have hempty (l : List UInt8) : OutputStream.write ⟨[], 0⟩ l = ⟨l, l.length⟩ :=
    OutputStream.write_end [] l
  rw [hempty, OutputStream.write_end, OutputStream.write_end, OutputStream.write_end]
  rfl

theorem Written.writeSector (h : Written blockofs blocksize blocks o es)
    (w : UInt32 × (Int → UInt8)) :
    Written blockofs blocksize blocks (o.writeSector w.2 w.1)
      (keep es (entry blockofs blocksize w)) := by
  have hkept := h
  obtain ⟨hversion, hofs, hsize, htable, hstream⟩ := h
  have hany : o.dtable.any (· = w.1) = es.any (·.1 = (entry blockofs blocksize w).1) := by
    rw [htable, List.any_map]
    rfl
  rw [OutputIsoFile.writeSector, if_pos hversion, hany, keep]
  split
  · exact hkept
  · refine ⟨hversion, hofs, hsize, ?_, ?_⟩
    · rw [List.map_append, ← htable]
      rfl
    · simp only [writeValue, writeBuffer, hstream]
      rw [OutputStream.write_end, OutputStream.write_end]
      have hdump : dump blockofs blocksize blocks (es ++ [entry blockofs blocksize w]) =
          dump blockofs blocksize blocks es ++ bytes w.1 ++ payload o w.2 := by
        simp [dump, Entry.record, entry, payload, hofs, hsize]
      rw [hdump]
      rfl

theorem Written.writeSectors (h : Written blockofs blocksize blocks o es)
    (ws : List (UInt32 × (Int → UInt8))) :
    Written blockofs blocksize blocks (o.writeSectors ws)
      ((ws.map (entry blockofs blocksize)).foldl keep es) := by
  induction ws generalizing o es with
  | nil => exact h
  | cons w ws ih => exact ih (h.writeSector w)

theorem data_writeSectors (ws : List (UInt32 × (Int → UInt8))) :
    (((create 2).writeHeader blockofs blocksize blocks).writeSectors ws).outstream.data =
      dump blockofs blocksize blocks (recorded (ws.map (entry blockofs blocksize))) := by
  have hwritten : Written blockofs blocksize blocks
      ((create 2).writeHeader blockofs blocksize blocks) [] := written_writeHeader
  obtain ⟨-, -, -, -, hstream⟩ := hwritten.writeSectors ws
  rw [hstream]
  rfl

end OutputIsoFile

end OmegaRed.CDVD

/-! The table that `BlockdumpFileReader` reads out of a blockdump. -/

namespace OmegaRed.CDVD

open Lib.Memory Lib.Words Lib.Blocks

namespace BlockdumpFileReader

/-- The entry of record `i` as the window it begins in shows it: a number that goes on in the
next window is completed from the memory behind the buffer. -/
def seen (src : List UInt8) (width : Nat) (buffer : Nat → UInt8) (i : Nat) : UInt32 :=
  loadWord (fun x => if x < bs then src.getD (blockDumpHeaderSize + i * width / bs * bs + x) 0
    else buffer x) (i * width % bs)

variable {src : List UInt8} {blocksize n : Nat} {buffer : Nat → UInt8}

theorem store_fread {pos x : Nat} (hx : x < (fread src pos bs).length) :
    store buffer 0 (fread src pos bs) x = src.getD (pos + x) 0 := by
  have hlen := length_fread src pos bs
  have hmem : (fread src pos bs)[x]? = some (src.getD (pos + x) 0) := by
    have hlt : pos + x < src.length := by omega
    rw [fread, List.getElem?_take_of_lt (by omega), List.getElem?_drop, List.getD,
      List.getElem?_eq_getElem hlt]
    rfl
  have := store_of_mem buffer (a := 0) hmem
  rwa [Nat.zero_add] at this

theorem seen_store {data : List UInt8} (hlen : data.length ≤ bs) (width i : Nat) :
    seen src width (store buffer 0 data) i = seen src width buffer i := by
  apply loadWord_congr
  intro k hk
  by_cases hin : i * width % bs + k < bs
  · rw [if_pos hin, if_pos hin]
  · rw [if_neg hin, if_neg hin, store_of_ge _ _ (by omega)]

theorem loadWord_window (hlen : src.length = blockDumpHeaderSize + n * (blocksize + 4)) {i p : Nat}
    (hi : i < n) (hp : bs ∣ p) (hle : p ≤ i * (blocksize + 4))
    (hlt : i * (blocksize + 4) - p < (fread src (blockDumpHeaderSize + p) bs).length) :
    loadWord (store buffer 0 (fread src (blockDumpHeaderSize + p) bs)) (i * (blocksize + 4) - p) =
      seen src (blocksize + 4) buffer i := by
  have hread := length_fread src (blockDumpHeaderSize + p) bs
  have hnext : i * (blocksize + 4) + (blocksize + 4) ≤ n * (blocksize + 4) := by
    rw [← Nat.succ_mul]
    exact Nat.mul_le_mul_right _ hi
  obtain ⟨q, rfl⟩ := hp
  have hbs : 0 < bs := by decide
  obtain ⟨o, ho⟩ := Nat.exists_eq_add_of_le hle
  have hob : o < bs := by omega
  have hdiv : i * (blocksize + 4) / bs = q := by
    rw [ho, Nat.mul_add_div hbs, Nat.div_eq_of_lt hob, Nat.add_zero]
  have hmod : i * (blocksize + 4) % bs = o := by
    rw [ho, Nat.mul_add_mod, Nat.mod_eq_of_lt hob]
  rw [seen, hdiv, hmod, Nat.mul_comm q bs]
  rw [ho, Nat.add_sub_cancel_left] at hlt ⊢
  apply loadWord_congr
  intro k hk
  by_cases hin : o + k < (fread src (blockDumpHeaderSize + bs * q) bs).length
  · rw [store_fread hin, if_pos (by omega)]
  · rw [if_neg (by omega), store_of_ge _ _ (by omega)]

/-- The positions in the table do not wrap. -/
def NoWrap (blocksize n : Nat) : Prop := ∀ i, i < n → i * (blocksize + 4) < 2 ^ 32

/-- What has been read of the table when a window at `p` begins or ends: `i` entries, and
`off` is where the next one stands. -/
structure Filled (src : List UInt8) (blocksize n : Nat) (buffer : Nat → UInt8) (p : Nat)
    (dtable : Nat → UInt32) (i off : Nat) : Prop where
  le : i ≤ n
  entries : ∀ j, j < i → dtable j = seen src (blocksize + 4) buffer j
  off : i < n → i * (blocksize + 4) = p + off

theorem Filled.fillWindow (hlen : src.length = blockDumpHeaderSize + n * (blocksize + 4))
    (hwrap : NoWrap blocksize n) {p : Nat} (hp : bs ∣ p) {dtable : Nat → UInt32} {i off : Nat}
    (h : Filled src blocksize n buffer p dtable i off) :
    ∃ dtable' i' off', fillWindow blocksize n (store buffer 0 (fread src (blockDumpHeaderSize + p) bs))
        (fread src (blockDumpHeaderSize + p) bs).length dtable i off = (dtable', i', off') ∧
      Filled src blocksize n buffer p dtable' i' off' ∧
      (i' < n → (fread src (blockDumpHeaderSize + p) bs).length ≤ off') := by
  rw [BlockdumpFileReader.fillWindow]
  by_cases hstep : i < n ∧ off < (fread src (blockDumpHeaderSize + p) bs).length
  · obtain ⟨hi, hoff⟩ := hstep
    have hpos := h.off hi
    have hentry : loadWord (store buffer 0 (fread src (blockDumpHeaderSize + p) bs)) off =
        seen src (blocksize + 4) buffer i := by
      rw [← loadWord_window hlen hi hp (by omega) (by omega), hpos, Nat.add_sub_cancel_left]
    rw [if_pos ⟨hi, hoff⟩]
    refine Filled.fillWindow hlen hwrap hp ⟨hi, fun j hj => ?_, fun hnext => ?_⟩
    · by_cases hji : j = i
      · rw [hji, Function.update_self, hentry]
      · rw [Function.update_of_ne hji]
        exact h.entries j (by omega)
    · have hlt := hwrap (i + 1) hnext
      rw [Nat.succ_mul] at hlt ⊢
      rw [Nat.mod_eq_of_lt (by omega)]
      omega
  · rw [if_neg hstep]
    exact ⟨dtable, i, off, rfl, h, fun hi => by omega⟩
termination_by n - i

theorem Filled.fillTable (hlen : src.length = blockDumpHeaderSize + n * (blocksize + 4))
    (hwrap : NoWrap blocksize n) {buffer : Nat → UInt8} {p : Nat} (hp : bs ∣ p)
    (hle : p ≤ n * (blocksize + 4)) {dtable : Nat → UInt32} {i off : Nat}
    (h : Filled src blocksize n buffer p dtable i off)
    {j : Nat} (hj : j < n) :
    fillTable src blocksize n buffer (blockDumpHeaderSize + p) dtable i off j =
      seen src (blocksize + 4) buffer j := by
  have hread := length_fread src (blockDumpHeaderSize + p) bs
  obtain ⟨dtable', i', off', hwindow, hfilled, hrest⟩ := h.fillWindow hlen hwrap hp
  rw [BlockdumpFileReader.fillTable]
  simp only [hwindow]
  by_cases hfull : (fread src (blockDumpHeaderSize + p) bs).length = bs
  · have hkeep : ∀ k, seen src (blocksize + 4)
        (store buffer 0 (fread src (blockDumpHeaderSize + p) bs)) k =
        seen src (blocksize + 4) buffer k := seen_store (by omega) (blocksize + 4)
    have hcarry : Filled src blocksize n
        (store buffer 0 (fread src (blockDumpHeaderSize + p) bs)) (p + bs) dtable' i'
        ((off' + 2 ^ 32 - bs) % 2 ^ 32) := by
      refine ⟨hfilled.le, fun k hk => (hfilled.entries k hk).trans (hkeep k).symm, fun hi => ?_⟩
      have hoff := hrest hi
      have hpos := hfilled.off hi
      have hlt := hwrap i' hi
      have hbs : bs < 2 ^ 32 := by decide
      omega
    rw [dif_pos hfull, hfull, Nat.add_assoc, ← hkeep]
    exact hcarry.fillTable hlen hwrap (Nat.dvd_add hp (Nat.dvd_refl bs)) (by omega) hj
  · rw [dif_neg hfull]
    refine hfilled.entries j ?_
    by_contra hji
    have hi : i' < n := by omega
    have hoff := hrest hi
    have hpos := hfilled.off hi
    have hnext : i' * (blocksize + 4) + (blocksize + 4) ≤ n * (blocksize + 4) := by
      rw [← Nat.succ_mul]
      exact Nat.mul_le_mul_right _ hi
    omega
termination_by src.length - p
decreasing_by
  have : 0 < bs := by decide
  omega

end BlockdumpFileReader

end OmegaRed.CDVD
