import OmegaRed.CDVD.Dump

/-! Writing a blockdump and reading it back. -/

namespace OmegaRed.CDVD

open Lib.Memory Lib.Words Lib.Blocks

section Layout

variable {blockofs : Int32} {blocksize blocks : UInt32} {es : List Entry}

/-- Every entry has the bytes of a whole block. -/
def Sized (blocksize : UInt32) (es : List Entry) : Prop :=
  ∀ e, e ∈ es → e.2.length = blocksize.toNat

@[simp] theorem length_dumpHeader :
    (dumpHeader blockofs blocksize blocks).length = blockDumpHeaderSize := rfl

theorem Sized.record (h : Sized blocksize es) :
    ∀ l, l ∈ es.map Entry.record → l.length = blocksize.toNat + 4 := by
  intro l hl
  obtain ⟨e, he, rfl⟩ := List.mem_map.mp hl
  rw [Entry.record, List.length_append, length_bytes, h e he, Nat.add_comm]

theorem length_dump (h : Sized blocksize es) :
    (dump blockofs blocksize blocks es).length =
      blockDumpHeaderSize + es.length * (blocksize.toNat + 4) := by
  rw [dump, List.length_append, length_dumpHeader, length_flatten h.record, List.length_map]

theorem magic_dump : fread (dump blockofs blocksize blocks es) 0 4 = bdv2Magic := rfl

theorem blocksize_dump : u32At (dump blockofs blocksize blocks es) 4 = blocksize := by
  change ofBytes _ _ _ _ = blocksize
  exact ofBytes_bytes blocksize

theorem fread_dump (h : Sized blocksize es) {i : Nat} {e : Entry} (he : es[i]? = some e) {o k : Nat}
    (hk : o + k ≤ blocksize.toNat + 4) :
    fread (dump blockofs blocksize blocks es)
      (blockDumpHeaderSize + i * (blocksize.toNat + 4) + o) k = fread e.record o k := by
  have hrecord : (es.map Entry.record)[i]? = some e.record := by rw [List.getElem?_map, he]; rfl
  rw [fread, fread, dump, Nat.add_assoc, ← List.drop_drop,
    List.drop_left' length_dumpHeader, slice_flatten h.record hrecord hk]

theorem fread_dump_data (h : Sized blocksize es) {i : Nat} {e : Entry} (he : es[i]? = some e) :
    fread (dump blockofs blocksize blocks es)
      (blockDumpHeaderSize + i * (blocksize.toNat + 4) + 4) blocksize.toNat = e.2 := by
  have hlen := h e (List.mem_of_getElem? he)
  rw [fread_dump h he (by omega), fread, Entry.record, ← hlen, List.drop_left' (length_bytes e.1),
    List.take_length]

theorem getD_dump (h : Sized blocksize es) {i : Nat} {e : Entry} (he : es[i]? = some e) {k : Nat}
    (hk : k < 4) : (dump blockofs blocksize blocks es).getD
      (blockDumpHeaderSize + i * (blocksize.toNat + 4) + k) 0 = (bytes e.1 ++ []).getD k 0 := by
  have hread : fread (dump blockofs blocksize blocks es)
      (blockDumpHeaderSize + i * (blocksize.toNat + 4) + 0) 4 = fread e.record 0 4 :=
    fread_dump h he (by omega)
  have hbytes : fread e.record 0 4 = bytes e.1 := rfl
  rw [hbytes, fread, Nat.add_zero] at hread
  rw [List.append_nil, ← hread, List.getD, List.getD, List.getElem?_take_of_lt hk,
    List.getElem?_drop]

end Layout

namespace BlockdumpFileReader

section Seen

variable {blockofs : Int32} {blocksize blocks : UInt32} {es : List Entry} {buffer : Nat → UInt8}

theorem seen_dump (h : Sized blocksize es) {i : Nat} {e : Entry} (he : es[i]? = some e)
    (hin : i * (blocksize.toNat + 4) % bs + 4 ≤ bs) :
    seen (dump blockofs blocksize blocks es) (blocksize.toNat + 4) buffer i = e.1 := by
  rw [← loadWord_bytes e.1 [], seen]
  apply loadWord_congr
  intro k hk
  have hpos := Nat.div_add_mod' (i * (blocksize.toNat + 4)) bs
  rw [if_pos (by omega), Nat.zero_add, ← getD_dump h he hk]
  congr 1
  omega

theorem seen_straddling {src : List UInt8} {width i : Nat} {x : UInt32}
    (hout : bs < i * width % bs + 4) (h : seen src width buffer i = x) :
    buffer (i * width % bs + 3) = (bytes x ++ []).getD 3 0 := by
  rw [← loadWord_bytes x [], seen] at h
  have := eq_of_loadWord_eq h
  rwa [if_neg (by omega)] at this

end Seen


/-- The number of entries that `Open` makes room for. -/
def tableSize (datalen : Option Int) (src : List UInt8) : Int :=
  let width : Nat := ((u32At src 4).toNat + 4) % 2 ^ 32
  ((datalen.getD (src.length - blockDumpHeaderSize)).tdiv width).bmod (2 ^ 32)

variable {datalen : Option Int} {mem : Uninit} {src : List UInt8} {r : BlockdumpFileReader}

theorem openFile_isSome (hmagic : fread src 0 4 = bdv2Magic)
    (hwidth : ((u32At src 4).toNat + 4) % 2 ^ 32 ≠ 0) (hsize : 0 ≤ tableSize datalen src) :
    ∃ r, openFile datalen mem src = some r := by
  rw [openFile, if_neg (not_not.mpr hmagic)]
  exact ⟨_, if_neg (not_or.mpr ⟨hwidth, not_lt.mpr hsize⟩)⟩

theorem openFile_eq_some (h : openFile datalen mem src = some r) :
    ((u32At src 4).toNat + 4) % 2 ^ 32 ≠ 0 ∧ (r.dtablesize : Int) = tableSize datalen src ∧
      r.blocksize = u32At src 4 ∧ r.src = src ∧
      r.dtable = fillTable src (u32At src 4).toNat r.dtablesize mem.buffer blockDumpHeaderSize
        mem.dtable 0 0 := by
  rw [openFile] at h
  split at h
  · cases h
  · dsimp only at h
    split at h
    · cases h
    · rename_i hok
      obtain ⟨hwidth, hsize⟩ := not_or.mp hok
      cases h
      exact ⟨hwidth, Int.toNat_of_nonneg (not_lt.mp hsize), rfl, rfl, rfl⟩

theorem find_eq_none_iff {lsn : UInt32} :
    r.find lsn = none ↔ ∀ i, i < r.dtablesize → r.dtable i ≠ lsn := by
  rw [find, List.find?_eq_none]
  exact forall_congr' fun i => by rw [List.mem_range, decide_eq_true_iff]

theorem find_eq_some {lsn : UInt32} {i : Nat} (h : r.find lsn = some i) :
    i < r.dtablesize ∧ r.dtable i = lsn := by
  refine ⟨List.mem_range.mp (List.mem_of_find?_eq_some h), ?_⟩
  have := List.find?_some h
  rwa [decide_eq_true_iff] at this

theorem readSync_of_find_none {lsn : UInt32} (h : r.find lsn = none) (dst : Nat → UInt8) :
    r.readSync dst lsn 1 = (-1, dst) := by
  rw [readSync, readFrom, h]

theorem readSync_of_find {lsn : UInt32} {i : Nat} (h : r.find lsn = some i) (dst : Nat → UInt8) :
    r.readSync dst lsn 1 =
      (0, store dst 0 (fread r.src (r.seekPos i) r.blocksize.toNat)) := by
  rw [readSync, readFrom, h]
  rfl

/-- What it is for a dump to read back: the table has the records of the file, a sector that was
written is read as it was written first, and no other is found. -/
structure RoundTrip (blocksize : UInt32) (ws : List Entry) (r : BlockdumpFileReader) : Prop where
  count : r.dtablesize = (recorded ws).length
  seekPos : ∀ i, i < r.dtablesize →
    r.seekPos i = blockDumpHeaderSize + i * (blocksize.toNat + 4) + 4
  found : ∀ lsn data, lookup ws lsn = some data →
    ∀ dst, r.readSync dst lsn 1 = (0, store dst 0 data)
  missing : ∀ lsn, lookup ws lsn = none → ∀ dst, r.readSync dst lsn 1 = (-1, dst)

/-- The length that `datalen` keeps: that of the first dump that was opened. -/
def firstDatalen (earlier : List (List UInt8)) : Option Int :=
  (earlier.find? fun src => fread src 0 4 = bdv2Magic).map fun src =>
    src.length - blockDumpHeaderSize

theorem foldl_keepDatalen (earlier : List (List UInt8)) (datalen : Option Int) :
    earlier.foldl keepDatalen datalen = datalen.or (firstDatalen earlier) := by
  induction earlier generalizing datalen with
  | nil => exact (Option.or_none).symm
  | cons src earlier ih =>
    rw [List.foldl_cons, ih, keepDatalen]
    by_cases hmagic : fread src 0 4 = bdv2Magic
    · have hfirst : firstDatalen (src :: earlier) =
          some ((src.length : Int) - blockDumpHeaderSize) := by
        simp [firstDatalen, hmagic]
      rw [if_neg (not_not.mpr hmagic), hfirst]
      cases datalen <;> rfl
    · have hfirst : firstDatalen (src :: earlier) = firstDatalen earlier := by
        simp [firstDatalen, hmagic]
      rw [if_pos hmagic, hfirst]

/-- The dumps of `n` sectors that read back: the length kept from the first dump is one of `n`
records, every record begins below 4 GiB, and no number lies across the edge of a window. -/
structure ReadsBack (earlier : List (List UInt8)) (blocksize : UInt32) (n : Nat) : Prop where
  width : (blocksize.toNat + 4) % 2 ^ 32 ≠ 0
  count : (((firstDatalen earlier).getD (n * (blocksize.toNat + 4) : Nat)).tdiv
    ((blocksize.toNat + 4) % 2 ^ 32 : Nat)).bmod (2 ^ 32) = n
  below : ∀ i, i < n → blockDumpHeaderSize + i * (blocksize.toNat + 4) + 4 < 2 ^ 32
  whole : ∀ i, i < n → i * (blocksize.toNat + 4) % bs + 4 ≤ bs

section Opened

variable {blockofs : Int32} {blocksize blocks : UInt32} {es ws : List Entry}
  {earlier : List (List UInt8)}

theorem tableSize_dump (h : Sized blocksize es) :
    tableSize datalen (dump blockofs blocksize blocks es) =
      ((datalen.getD (es.length * (blocksize.toNat + 4) : Nat)).tdiv
        ((blocksize.toNat + 4) % 2 ^ 32 : Nat)).bmod (2 ^ 32) := by
  have hlen : ((dump blockofs blocksize blocks es).length : Int) - blockDumpHeaderSize =
      (es.length * (blocksize.toNat + 4) : Nat) := by
    rw [length_dump h]
    omega
  rw [tableSize, blocksize_dump, hlen]

theorem dtable_dump (h : Sized blocksize es)
    (hopen : openFile datalen mem (dump blockofs blocksize blocks es) = some r)
    (hcount : r.dtablesize = es.length)
    (hbelow : ∀ i, i < es.length → blockDumpHeaderSize + i * (blocksize.toNat + 4) + 4 < 2 ^ 32)
    {i : Nat} (hi : i < es.length) : r.dtable i =
      seen (dump blockofs blocksize blocks es) (blocksize.toNat + 4) mem.buffer i := by
  obtain ⟨-, -, -, -, htable⟩ := openFile_eq_some hopen
  have hempty : Filled (dump blockofs blocksize blocks es) blocksize.toNat es.length mem.buffer 0
      mem.dtable 0 0 := ⟨Nat.zero_le _, fun j hj => absurd hj (Nat.not_lt_zero j), fun _ => by omega⟩
  have hwrap : NoWrap blocksize.toNat es.length := fun j hj => by
    have := hbelow j hj
    omega
  rw [htable, blocksize_dump, hcount]
  exact hempty.fillTable (length_dump h) hwrap (Nat.dvd_zero bs) (Nat.zero_le _) hi

theorem roundTrip_of_table (hsize : r.blocksize = blocksize)
    (hsrc : r.src = dump blockofs blocksize blocks (recorded ws))
    (h : Sized blocksize (recorded ws)) (hcount : r.dtablesize = (recorded ws).length)
    (htable : ∀ i e, (recorded ws)[i]? = some e → r.dtable i = e.1)
    (hbelow : ∀ i, i < (recorded ws).length →
      blockDumpHeaderSize + i * (blocksize.toNat + 4) + 4 < 2 ^ 32) :
    RoundTrip blocksize ws r := by
  have hseek : ∀ i, i < r.dtablesize →
      r.seekPos i = blockDumpHeaderSize + i * (blocksize.toNat + 4) + 4 := by
    intro i hi
    rw [BlockdumpFileReader.seekPos, hsize, Nat.mod_eq_of_lt (hbelow i (hcount ▸ hi))]
  refine ⟨hcount, hseek, fun lsn data hdata dst => ?_, fun lsn hnone dst => ?_⟩
  · rw [← lookup_recorded, lookup_eq_some_iff (nodup_recorded ws)] at hdata
    cases hfind : r.find lsn with
    | none =>
      obtain ⟨i, hi⟩ := List.getElem?_of_mem hdata
      have hlt := (List.getElem?_eq_some_iff.mp hi).1
      exact absurd (htable i _ hi) (find_eq_none_iff.mp hfind i (hcount ▸ hlt))
    | some i =>
      obtain ⟨hlt, hlsn⟩ := find_eq_some hfind
      have hi : i < (recorded ws).length := hcount ▸ hlt
      have he := List.getElem?_eq_getElem hi
      have hentry : (recorded ws)[i] = (lsn, data) :=
        List.inj_on_of_nodup_map (nodup_recorded ws) (List.getElem_mem _) hdata
          ((htable i _ he).symm.trans hlsn)
      rw [hentry] at he
      rw [readSync_of_find hfind, hseek i hlt, hsrc, hsize, fread_dump_data h he]
  · rw [← lookup_recorded, lookup_eq_none_iff] at hnone
    refine readSync_of_find_none (find_eq_none_iff.mpr fun i hi hlsn => ?_) dst
    rw [hcount] at hi
    have he := List.getElem?_eq_getElem hi
    exact hnone _ (List.getElem_mem _) ((htable i _ he).symm.trans hlsn)

/-- A number that is not read whole takes what is behind the buffer, and the sector is lost. -/
theorem not_roundTrip_of_straddling (h : Sized blocksize (recorded ws)) {g : UInt8} {i : Nat}
    {e : Entry} (he : (recorded ws)[i]? = some e)
    (hout : bs < i * (blocksize.toNat + 4) % bs + 4) (hg : g ≠ (bytes e.1 ++ []).getD 3 0)
    (hbuffer : mem.buffer = fun _ => g)
    (hbelow : ∀ i, i < (recorded ws).length →
      blockDumpHeaderSize + i * (blocksize.toNat + 4) + 4 < 2 ^ 32)
    (hopen : openFile datalen mem (dump blockofs blocksize blocks (recorded ws)) = some r) :
    ¬ RoundTrip blocksize ws r := by
  intro htrip
  have hlookup : lookup ws e.1 = some e.2 := by
    rw [← lookup_recorded, lookup_eq_some_iff (nodup_recorded ws)]
    exact List.mem_of_getElem? he
  have hread := htrip.found e.1 e.2 hlookup fun _ => 0
  cases hfind : r.find e.1 with
  | none =>
    rw [readSync_of_find_none hfind] at hread
    cases congrArg Prod.fst hread
  | some j =>
    obtain ⟨hj, hlsn⟩ := find_eq_some hfind
    rw [htrip.count] at hj
    rw [dtable_dump h hopen htrip.count hbelow hj] at hlsn
    by_cases hin : j * (blocksize.toNat + 4) % bs + 4 ≤ bs
    · have he' := List.getElem?_eq_getElem hj
      rw [seen_dump h he' hin] at hlsn
      have hentry := List.inj_on_of_nodup_map (nodup_recorded ws) (List.getElem_mem hj)
        (List.mem_of_getElem? he) hlsn
      have hnodup := (nodup_recorded ws).of_map
      have hij : j = i := (List.getElem?_inj hj hnodup).mp (by rw [he', hentry, he])
      subst hij
      omega
    · have htop := seen_straddling (not_le.mp hin) hlsn
      rw [hbuffer] at htop
      exact hg htop

theorem ReadsBack.of_roundTrip (h : Sized blocksize (recorded ws))
    (hall : ∀ mem, ∃ r, openFile (firstDatalen earlier) mem
      (dump blockofs blocksize blocks (recorded ws)) = some r ∧ RoundTrip blocksize ws r) :
    ReadsBack earlier blocksize (recorded ws).length := by
  obtain ⟨r, hopen, htrip⟩ := hall ⟨fun _ => 0, fun _ => 0⟩
  obtain ⟨hwidth, hsize, -, -, -⟩ := openFile_eq_some hopen
  rw [blocksize_dump] at hwidth
  rw [tableSize_dump h, htrip.count] at hsize
  have hbelow : ∀ i, i < (recorded ws).length →
      blockDumpHeaderSize + i * (blocksize.toNat + 4) + 4 < 2 ^ 32 := by
    intro i hi
    rw [← htrip.seekPos i (htrip.count ▸ hi)]
    exact Nat.mod_lt _ (by decide)
  refine ⟨hwidth, hsize.symm, hbelow, fun i hi => ?_⟩
  by_contra hout
  -- memory that differs from the number's last byte shows that it was not read
  have : Nontrivial UInt8 := ⟨0, 1, by decide⟩
  obtain ⟨g, hg⟩ := exists_ne ((bytes (recorded ws)[i].1 ++ []).getD 3 0)
  obtain ⟨r, hopen, htrip⟩ := hall ⟨fun _ => 0, fun _ => g⟩
  exact not_roundTrip_of_straddling h (List.getElem?_eq_getElem hi) (not_le.mp hout) hg rfl
    hbelow hopen htrip

theorem ReadsBack.roundTrip (h : Sized blocksize (recorded ws))
    (hreads : ReadsBack earlier blocksize (recorded ws).length) (mem : Uninit) :
    ∃ r, openFile (firstDatalen earlier) mem
      (dump blockofs blocksize blocks (recorded ws)) = some r ∧ RoundTrip blocksize ws r := by
  obtain ⟨hwidth, hcount, hbelow, hwhole⟩ := hreads
  have hcount : tableSize (firstDatalen earlier) (dump blockofs blocksize blocks (recorded ws)) =
      (recorded ws).length := (tableSize_dump h).trans hcount
  have hsize : 0 ≤ tableSize (firstDatalen earlier)
      (dump blockofs blocksize blocks (recorded ws)) := hcount ▸ Int.natCast_nonneg _
  obtain ⟨r, hopen⟩ := openFile_isSome magic_dump (blocksize_dump.symm ▸ hwidth) hsize
  obtain ⟨-, hsize, hblocksize, hsrc, -⟩ := openFile_eq_some hopen
  rw [hcount] at hsize
  have hsize : r.dtablesize = (recorded ws).length := by omega
  refine ⟨r, hopen, roundTrip_of_table (hblocksize.trans blocksize_dump) hsrc h hsize
    (fun i e he => ?_) hbelow⟩
  have hi := (List.getElem?_eq_some_iff.mp he).1
  rw [dtable_dump h hopen hsize hbelow hi, seen_dump h he (hwhole i hi)]

end Opened

theorem sized_entries (blockofs : Int32) (blocksize : UInt32)
    (calls : List (UInt32 × (Int → UInt8))) :
    Sized blocksize (recorded (calls.map (OutputIsoFile.entry blockofs blocksize))) := by
  intro e he
  obtain ⟨w, -, rfl⟩ := List.mem_map.mp (mem_of_mem_recorded he)
  rw [OutputIsoFile.entry, List.length_map, List.length_range]

/-- Which dumps read back, whatever was opened before and whatever is in memory. -/
theorem roundTrip_iff (blockofs : Int32) (blocksize blocks : UInt32)
    (calls : List (UInt32 × (Int → UInt8))) (earlier : List (List UInt8)) :
    (∀ mem, ∃ r, openFile (earlier.foldl keepDatalen none) mem
        (((OutputIsoFile.create 2).writeHeader blockofs blocksize blocks).writeSectors
          calls).outstream.data = some r ∧
      RoundTrip blocksize (calls.map (OutputIsoFile.entry blockofs blocksize)) r) ↔
    ReadsBack earlier blocksize
      (recorded (calls.map (OutputIsoFile.entry blockofs blocksize))).length := by
  have hsized := sized_entries blockofs blocksize calls
  rw [OutputIsoFile.data_writeSectors, foldl_keepDatalen, Option.none_or]
  exact ⟨ReadsBack.of_roundTrip hsized, ReadsBack.roundTrip hsized⟩

/-- A dump of two sectors does not read back when a dump of one was opened before. -/
theorem not_roundTrip_after_shorter :
    ¬ ∀ mem, ∃ r, openFile ([(((OutputIsoFile.create 2).writeHeader 0 1 1).writeSectors
          [(0, fun _ => 7)]).outstream.data].foldl keepDatalen none) mem
        (((OutputIsoFile.create 2).writeHeader 0 1 2).writeSectors
          [(0, fun _ => 7), (1, fun _ => 8)]).outstream.data = some r ∧
      RoundTrip 1 ([(0, fun _ => 7), (1, fun _ => 8)].map (OutputIsoFile.entry 0 1)) r := by
  intro hall
  rw [OutputIsoFile.data_writeSectors, OutputIsoFile.data_writeSectors, foldl_keepDatalen,
    Option.none_or] at hall
  have hreads := ReadsBack.of_roundTrip (sized_entries 0 1 [(0, fun _ => 7), (1, fun _ => 8)]) hall
  have hcount := hreads.count
  have hkept : firstDatalen [dump 0 1 1
      (recorded ([(0, fun _ => 7)].map (OutputIsoFile.entry 0 1)))] = some 5 := by decide
  have htwo : (recorded ([(0, fun _ => 7), (1, fun _ => 8)].map
      (OutputIsoFile.entry 0 1))).length = 2 := by decide
  rw [hkept, htwo] at hcount
  revert hcount
  decide

end BlockdumpFileReader

end OmegaRed.CDVD
