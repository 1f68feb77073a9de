import OmegaRed.Memcard.Folder

/-! The data of a page, whichever structure holds it, and what one access reads of it. -/

namespace OmegaRed.Memcard

open Lib.Memory CDVD

namespace FolderMemoryCard

variable (card : FolderMemoryCard)

/-- The file behind a data cluster, with the position of the cluster in it. -/
def backing (page : Nat) : Option (Nat × List UInt8) :=
  let fatCluster := u32Sub (page / 2) card.allocOffset
  if card.inUse fatCluster then do
    let it ← card.fileMetadataQuickAccess fatCluster
    let file ← it.file
    some (it.consecutiveCluster, file)
  else none

/-- The data of a page that no structure in memory holds. -/
def fileData (page o : Nat) : UInt8 :=
  match card.backing page with
  | some (consecutiveCluster, file) =>
    file.getD (u32 (consecutiveCluster * clusterSize + page % 2 * pageSize) + o) 0xFF
  | none => 0xFF

def pageData (fuel page : Nat) : Option (Nat → UInt8) :=
  match card.cache page with
  | some raw => some raw
  | none => do
    let src ← card.getSystemBlockPointer fuel (page * pageSizeRaw)
    some (src.getD (card.fileData page))

variable {card}

theorem fread_fill (file : List UInt8) (pos len : Nat) (v : UInt8) :
    fread file pos len ++ List.replicate (len - (fread file pos len).length) v =
      load (fun o => file.getD o v) pos len := by
  apply List.ext_getElem?
  intro i
  by_cases hi : i < len
  · rw [getElem?_load _ hi]
    by_cases hb : i < (fread file pos len).length
    · rw [List.getElem?_append_left hb, fread, List.getElem?_take_of_lt hi, List.getElem?_drop]
      have hlen : pos + i < file.length := by
        rw [length_fread] at hb
        omega
      rw [List.getD_eq_getElem?_getD, List.getElem?_eq_getElem hlen]
      rfl
    · have hfile : file.length ≤ pos + i := by
        rw [length_fread] at hb
        omega
      rw [List.getElem?_append_right (by omega), List.getElem?_replicate, if_pos (by omega),
        List.getD_eq_default _ _ hfile]
  · have hlen : (fread file pos len).length ≤ len := by
      rw [length_fread]
      omega
    rw [List.getElem?_eq_none (by simp; omega), List.getElem?_eq_none (by simp; omega)]

theorem u32_cluster (n page : Nat) {offset : Nat} (h : offset < pageSize) :
    u32 (n * clusterSize + (page % 2 * pageSize + offset)) =
      u32 (n * clusterSize + page % 2 * pageSize) + offset := by
  simp only [u32, clusterSize, pageSize] at h ⊢
  omega

theorem page_of_raw (page : Nat) {offset : Nat} (h : offset < pageSizeRaw) :
    (page * pageSizeRaw + offset) / pageSizeRaw = page := by
  rw [Nat.mul_comm, Nat.mul_add_div (by decide), Nat.div_eq_of_lt h, Nat.add_zero]

theorem offset_of_raw (page : Nat) {offset : Nat} (h : offset < pageSizeRaw) :
    (page * pageSizeRaw + offset) % pageSizeRaw = offset := by
  rw [Nat.mul_comm, Nat.mul_add_mod, Nat.mod_eq_of_lt h]

theorem cluster_of_raw (page : Nat) {offset : Nat} (h : offset < pageSizeRaw) :
    (page * pageSizeRaw + offset) / clusterSizeRaw = page / 2 := by
  rw [clusterSizeRaw, ← Nat.div_div_eq_div_mul, page_of_raw page h]

theorem block_of_raw (page : Nat) {offset : Nat} (h : offset < pageSizeRaw) :
    (page * pageSizeRaw + offset) / blockSizeRaw = page / 16 := by
  rw [blockSizeRaw, ← Nat.div_div_eq_div_mul, cluster_of_raw page h, Nat.div_div_eq_div_mul]

theorem getSystemBlockPointer_offset (fuel page : Nat) {offset : Nat} (h : offset < pageSizeRaw) :
    card.getSystemBlockPointer fuel (page * pageSizeRaw + offset) =
      (card.getSystemBlockPointer fuel (page * pageSizeRaw)).map
        (Option.map fun src i => src (offset + i)) := by
  have h0 : 0 < pageSizeRaw := by decide
  rw [← Nat.add_zero (page * pageSizeRaw), Nat.add_assoc, Nat.zero_add]
  simp only [getSystemBlockPointer, page_of_raw _ h, offset_of_raw _ h, cluster_of_raw _ h,
    block_of_raw _ h, page_of_raw _ h0, offset_of_raw _ h0, cluster_of_raw _ h0,
    block_of_raw _ h0]
  split
  · split
    · simp only [getFileEntryPointer, Option.bind_eq_bind, Option.map_bind]
      congr 1
      funext ptr
      cases ptr with
      | none => rfl
      | some ptr => simp
    · rfl
  · split
    · simp [Nat.add_assoc]
    · split
      · simp [Nat.add_assoc]
      · split
        · simp [Nat.add_assoc]
        · simp only [getFatPointer, Option.map_some, Option.some.injEq]
          split
          · simp [Nat.add_assoc]
          · split
            · simp [Nat.add_assoc]
            · rfl

theorem readFromFile_eq (dest page len : Nat) (m : Nat → UInt8) {offset : Nat}
    (h : offset < pageSize) :
    (if (card.readFromFile dest (page * pageSizeRaw + offset) len m).1 then
        (card.readFromFile dest (page * pageSizeRaw + offset) len m).2
      else store (card.readFromFile dest (page * pageSizeRaw + offset) len m).2 dest
        (List.replicate len 0xFF)) =
      store m dest (load (card.fileData page) offset len) := by
  have hraw : offset < pageSizeRaw := Nat.lt_add_right eccSize h
  simp only [readFromFile, page_of_raw _ hraw, offset_of_raw _ hraw, cluster_of_raw _ hraw]
  have hnone : card.backing page = none →
      load (card.fileData page) offset len = List.replicate len 0xFF := by
    intro hb
    simp [load, fileData, hb]
  by_cases huse : card.inUse (u32Sub (page / 2) card.allocOffset)
  · simp only [huse, not_true_eq_false, if_false]
    cases hit : card.fileMetadataQuickAccess (u32Sub (page / 2) card.allocOffset) with
    | none => simp [hnone (by simp [backing, huse, hit])]
    | some it =>
      cases hfile : it.file with
      | none => simp [hfile, hnone (by simp [backing, huse, hit, hfile])]
      | some file =>
        simp only [u32_cluster _ _ h, hfile]
        have hdata : load (card.fileData page) offset len =
            load (fun o => file.getD o 0xFF)
              (u32 (it.consecutiveCluster * clusterSize + page % 2 * pageSize) + offset) len := by
          rw [load_ext_iff]
          intro i _
          simp [fileData, backing, huse, hit, hfile, Nat.add_assoc]
        rw [hdata, ← fread_fill]
        have hle : (fread file (u32 (it.consecutiveCluster * clusterSize + page % 2 * pageSize) +
            offset) len).length ≤ len := by
          rw [length_fread]
          exact Nat.min_le_left _ _
        generalize fread file _ len = bytes at hle ⊢
        by_cases hlt : bytes.length < len
        · simp only [if_pos hlt, store_append, decide_eq_true_eq]
          split
          · rfl
          · next hpos =>
            have hnil : bytes = [] := List.length_eq_zero_iff.mp (Nat.eq_zero_of_not_pos hpos)
            subst hnil
            exact store_store_of_le _ _ (Nat.le_refl _)
        · have hlen : bytes.length = len := by omega
          subst hlen
          cases bytes with
          | nil => simp
          | cons b bytes => simp
  · simp [huse, hnone (by simp [backing, huse])]

theorem foldlM_of_some {σ β : Type} {f g : σ → β → Option σ}
    (h : ∀ s b r, f s b = some r → g s b = some r) (l : List β) {s r : σ}
    (hr : l.foldlM f s = some r) : l.foldlM g s = some r := by
  induction l generalizing s with
  | nil => exact hr
  | cons b l ih =>
    rw [List.foldlM_cons, Option.bind_eq_bind, Option.bind_eq_some_iff] at hr
    obtain ⟨t, ht, hr⟩ := hr
    rw [List.foldlM_cons, h s b t ht]
    exact ih hr

theorem checkSubdirectories_of_some {visit visit' : Nat → Nat → Option (Option _)}
    (h : ∀ cluster length r, visit cluster length = some r → visit' cluster length = some r)
    {currentCluster fileCount : Nat} {r : Option MemoryCardFileEntryCluster}
    (hr : card.checkSubdirectories visit currentCluster fileCount = some r) :
    card.checkSubdirectories visit' currentCluster fileCount = some r := by
  unfold checkSubdirectories at hr ⊢
  cases hit : card.fileEntryDict currentCluster with
  | none => simpa only [hit] using hr
  | some it =>
    simp only [hit] at hr ⊢
    refine foldlM_of_some (fun ptr i r hstep => ?_) _ hr
    split at hstep
    · next hsome => rwa [if_pos hsome]
    · next hsome =>
      rw [if_neg hsome]
      split at hstep
      · next hdir => rw [if_pos hdir]; exact h _ _ _ hstep
      · next hdir => rwa [if_neg hdir]

theorem getFileEntryCluster_mono {fuel fuel' : Nat} (hle : fuel ≤ fuel')
    {currentCluster searchCluster fileCount : Nat} {r : Option MemoryCardFileEntryCluster}
    (h : card.getFileEntryCluster fuel currentCluster searchCluster fileCount = some r) :
    card.getFileEntryCluster fuel' currentCluster searchCluster fileCount = some r := by
  induction fuel generalizing fuel' currentCluster fileCount r with
  | zero => simp [getFileEntryCluster] at h
  | succ fuel ih =>
    obtain ⟨fuel', rfl⟩ : ∃ n, fuel' = n + 1 := ⟨fuel' - 1, by omega⟩
    have hle : fuel ≤ fuel' := by omega
    rw [getFileEntryCluster] at h ⊢
    split at h
    · next heq => rwa [if_pos heq]
    · next hne =>
      rw [if_neg hne]
      dsimp only at h ⊢
      rw [Option.bind_eq_some_iff] at h ⊢
      obtain ⟨ptr, hptr, h⟩ := h
      refine ⟨ptr, ?_, ?_⟩
      · split at hptr
        · next hnext => rw [if_pos hnext]; exact ih hle hptr
        · next hnext => rwa [if_neg hnext]
      · split at h
        · next hsome => rwa [if_pos hsome]
        · next hsome =>
          rw [if_neg hsome]
          exact checkSubdirectories_of_some (fun _ _ _ hv => ih hle hv) h

theorem getSystemBlockPointer_mono {fuel fuel' adr : Nat} (hle : fuel ≤ fuel')
    {r : Option (Nat → UInt8)} (h : card.getSystemBlockPointer fuel adr = some r) :
    card.getSystemBlockPointer fuel' adr = some r := by
  unfold getSystemBlockPointer at h ⊢
  dsimp only at h ⊢
  split at h
  · next hdata =>
    rw [if_pos hdata]
    split at h
    · next huse =>
      rw [if_pos huse]
      simp only [getFileEntryPointer, Option.bind_eq_bind, Option.bind_eq_some_iff] at h ⊢
      obtain ⟨ptr, hptr, h⟩ := h
      exact ⟨ptr, getFileEntryCluster_mono hle hptr, h⟩
    · next huse => rwa [if_neg huse]
  · next hdata => rwa [if_neg hdata]

theorem pageData_mono {fuel fuel' page : Nat} (hle : fuel ≤ fuel') {d : Nat → UInt8}
    (h : card.pageData fuel page = some d) : card.pageData fuel' page = some d := by
  unfold pageData at h ⊢
  split at h
  · next raw hraw => simpa [hraw] using h
  · next hraw =>
    simp only [Option.bind_eq_bind, Option.bind_eq_some_iff] at h ⊢
    obtain ⟨src, hsrc, h⟩ := h
    exact ⟨src, getSystemBlockPointer_mono hle hsrc, h⟩

theorem readDataWithoutCache_eq (card : FolderMemoryCard) (fuel dest page len offset : Nat)
    (m : Nat → UInt8) (hcache : card.cache page = none) (h : offset < pageSize) :
    card.readDataWithoutCache fuel dest (page * pageSizeRaw + offset) len m =
      (card.pageData fuel page).map fun d => store m dest (load d offset len) := by
  have hraw : offset < pageSizeRaw := Nat.lt_add_right eccSize h
  rw [readDataWithoutCache, pageData, hcache, getSystemBlockPointer_offset _ _ hraw]
  cases card.getSystemBlockPointer fuel (page * pageSizeRaw) with
  | none => rfl
  | some src =>
    cases src with
    | none => exact congrArg some (readFromFile_eq dest page len m h)
    | some src =>
      have hload : load (fun i => src (offset + i)) 0 len = load src offset len := by
        rw [load_ext_iff]
        intro i _
        rw [Nat.zero_add]
      simp [hload]

end FolderMemoryCard

end OmegaRed.Memcard

/-! The raw image of the card, and the step `Read` takes on each page of a range. -/

namespace OmegaRed.Memcard

open Lib.Memory

/-- Byte `k` of the ECC area: four ECCs of three bytes and a fill of four. -/
def eccByte (data : Nat → UInt8) (k : Nat) : UInt8 :=
  if k < 12 then (calculateECC fun i => data (k / 3 * 0x80 + i)).getD (k % 3) 0 else 0xFF

def rawPage (data : Nat → UInt8) (o : Nat) : UInt8 :=
  if o < pageSize then data o else eccByte data (o - pageSize)

theorem calculateECC_congr {data data' : Nat → UInt8} (h : ∀ i, i < 0x80 → data i = data' i) :
    calculateECC data = calculateECC data' := by
  have hfold : (List.range 0x80).foldl (eccStep data) (0, 0, 0) =
      (List.range 0x80).foldl (eccStep data') (0, 0, 0) := by
    refine List.foldl_ext _ _ _ fun ecc i hi => ?_
    rw [eccStep, eccStep, h i (List.mem_range.mp hi)]
  rw [calculateECC, calculateECC, hfold]

theorem eccBuffer_congr {data data' : Nat → UInt8} (h : ∀ i, i < pageSize → data i = data' i) :
    eccBuffer data = eccBuffer data' := by
  refine List.foldl_ext _ _ _ fun ecc i hi => ?_
  have hi : i < 4 := List.mem_range.mp hi
  congr 1
  refine calculateECC_congr fun k hk => h _ ?_
  simp only [pageSize]
  omega

theorem eccBuffer_eq (data : Nat → UInt8) {k : Nat} (h : k < eccSize) :
    eccBuffer data k = eccByte data k := by
  have hthree : ∀ f : Nat → UInt8, ∃ a b c, calculateECC f = [a, b, c] := fun f => ⟨_, _, _, rfl⟩
  obtain ⟨a0, b0, c0, h0⟩ := hthree fun k => data (0 * 0x80 + k)
  obtain ⟨a1, b1, c1, h1⟩ := hthree fun k => data (1 * 0x80 + k)
  obtain ⟨a2, b2, c2, h2⟩ := hthree fun k => data (2 * 0x80 + k)
  obtain ⟨a3, b3, c3, h3⟩ := hthree fun k => data (3 * 0x80 + k)
  have hbuf : eccBuffer data = store (store (store (store (fun _ => 0xFF) 0 [a0, b0, c0])
      3 [a1, b1, c1]) 6 [a2, b2, c2]) 9 [a3, b3, c3] := by
    rw [← h0, ← h1, ← h2, ← h3]
    rfl
  rw [hbuf]
  simp only [Nat.zero_mul, Nat.zero_add] at h0
  simp only [eccSize] at h
  interval_cases k <;> simp [eccByte, store, h0, h1, h2, h3]

namespace FolderMemoryCard

variable (card : FolderMemoryCard)

/-- The walk for the page's data ends. -/
def Settled (page : Nat) : Prop := ∃ fuel, (card.pageData fuel page).isSome

open Classical in
noncomputable def data (page : Nat) : Nat → UInt8 :=
  if h : card.Settled page then (card.pageData h.choose page).get h.choose_spec else fun _ => 0

/-- The card's raw image: every page is its data followed by its ECC area. -/
noncomputable def image (adr : Nat) : UInt8 :=
  rawPage (card.data (adr / pageSizeRaw)) (adr % pageSizeRaw)

variable {card}

theorem data_eq {fuel page : Nat} {d : Nat → UInt8} (h : card.pageData fuel page = some d) :
    card.data page = d := by
  have hs : card.Settled page := ⟨fuel, by rw [h]; rfl⟩
  have hget : card.pageData hs.choose page =
      some ((card.pageData hs.choose page).get hs.choose_spec) := (Option.some_get _).symm
  rw [data, dif_pos hs]
  rcases Nat.le_total fuel hs.choose with hle | hle
  · exact (Option.some.inj ((pageData_mono hle h).symm.trans hget)).symm
  · exact Option.some.inj ((pageData_mono hle hget).symm.trans h)

theorem Settled.data_eq {page : Nat} (h : card.Settled page) :
    ∃ fuel, ∀ fuel', fuel ≤ fuel' → card.pageData fuel' page = some (card.data page) := by
  obtain ⟨fuel, hsome⟩ := h
  obtain ⟨d, hd⟩ := Option.isSome_iff_exists.mp hsome
  refine ⟨fuel, fun fuel' hle => ?_⟩
  rw [FolderMemoryCard.data_eq hd]
  exact pageData_mono hle hd

end FolderMemoryCard

/-- What one call of `Read` leaves of memory, for `size` bytes within one page. -/
def pageRead (data : Nat → UInt8) (offset size dest : Nat) (m : Nat → UInt8) : Nat → UInt8 :=
  let m := if offset < pageSize then
      store m dest (load data offset (min size (pageSize - offset)))
    else m
  if pageSize < offset + size then
    store m (dest + u32Sub pageSize offset)
      (load (eccBuffer data) 0 (min (u32Sub size offset) eccSize))
  else m

namespace FolderMemoryCard

variable {card : FolderMemoryCard}

theorem readData_of_lt (card : FolderMemoryCard) (fuel dest size : Nat) (m : Nat → UInt8)
    {adr : Nat} (h : adr % pageSizeRaw < pageSize) :
    card.readData fuel dest adr size m =
      (card.pageData fuel (adr / pageSizeRaw)).map fun d =>
        store m dest (load d (adr % pageSizeRaw) (min size (pageSize - adr % pageSizeRaw))) := by
  have hread := readDataWithoutCache_eq card fuel dest (adr / pageSizeRaw)
    (min size (pageSize - adr % pageSizeRaw)) (adr % pageSizeRaw) m
  rw [Nat.div_add_mod'] at hread
  simp only [readData, if_pos h]
  cases hcache : card.cache (adr / pageSizeRaw) with
  | some it => simp [pageData, hcache]
  | none => exact hread hcache h

theorem readData_of_ge (fuel dest size : Nat) (m : Nat → UInt8) {adr : Nat}
    (h : pageSize ≤ adr % pageSizeRaw) : card.readData fuel dest adr size m = some m := by
  simp only [readData, if_neg (Nat.not_lt.mpr h)]

theorem read_page (fuel dest page : Nat) (m : Nat → UInt8) :
    card.read (fuel + 1) dest (page * pageSizeRaw) pageSize m =
      (card.pageData fuel page).map fun d => store m dest (load d 0 pageSize) := by
  have hoff : page * pageSizeRaw % pageSizeRaw = 0 := Nat.mul_mod_left _ _
  have hsize : u32 (0 + pageSize) = pageSize := by decide
  have hraw : ¬ pageSizeRaw < pageSize := by decide
  have hdata := readData_of_lt card fuel dest pageSize m
    (show page * pageSizeRaw % pageSizeRaw < pageSize by rw [hoff]; decide)
  rw [hoff, Nat.mul_div_cancel _ (by decide), Nat.sub_zero, Nat.min_self] at hdata
  simp only [read, hoff, hsize, if_neg hraw, Option.bind_eq_bind, Option.bind_some, hdata,
    Nat.lt_irrefl, if_false]
  cases card.pageData fuel page <;> rfl

/-- The calls of `Read` for the pages behind the first. -/
def tail (card : FolderMemoryCard) (fuel dest adr size : Nat) (m : Nat → UInt8) :
    Option (Nat → UInt8) :=
  let toNextPage := pageSizeRaw - adr % pageSizeRaw
  if pageSizeRaw < adr % pageSizeRaw + size then
    card.read fuel (dest + toNextPage) (u32 (adr + toNextPage)) (size - toNextPage) m
  else some m

/-- The part of a range that lies in its first page. -/
def head (adr size : Nat) : Nat := min size (pageSizeRaw - adr % pageSizeRaw)

theorem read_succ {fuel dest adr size : Nat} (m : Nat → UInt8) (hsize : size < 2 ^ 31) :
    card.read (fuel + 1) dest adr size m =
      (card.tail fuel dest adr size m).bind fun m =>
        (card.readData fuel dest adr (head adr size) m).bind fun m =>
          if pageSize < adr % pageSizeRaw + head adr size then
            (card.read fuel 0 (adr / pageSizeRaw * pageSizeRaw) pageSize fun _ => 0).bind
              fun data => some (store m (dest + u32Sub pageSize (adr % pageSizeRaw))
                (load (eccBuffer data) 0
                  (min (u32Sub (head adr size) (adr % pageSizeRaw)) eccSize)))
          else some m := by
  have hoff : adr % pageSizeRaw < 528 := Nat.mod_lt _ (by decide)
  have hlast : u32 (adr % pageSizeRaw + size) = adr % pageSizeRaw + size := by
    rw [u32, Nat.mod_eq_of_lt (by omega)]
  have hhead : (if pageSizeRaw < adr % pageSizeRaw + size then pageSizeRaw - adr % pageSizeRaw
      else size) = head adr size := by
    simp only [head, show pageSizeRaw = 528 from rfl] at hoff ⊢
    split <;> omega
  have hecc : pageSize < adr % pageSizeRaw + size ↔
      pageSize < adr % pageSizeRaw + head adr size := by
    simp only [head, show pageSizeRaw = 528 from rfl, show pageSize = 512 from rfl] at hoff ⊢
    omega
  simp only [read, hlast, hhead, hecc, tail, Option.bind_eq_bind]
  split <;> rfl

/-- The access looks at the data of its first page. -/
def Looks (adr size : Nat) : Prop := adr % pageSizeRaw ≠ pageSize ∨ 0 < size

theorem eccBuffer_read (d m : Nat → UInt8) :
    eccBuffer (store m 0 (load d 0 pageSize)) = eccBuffer d := by
  refine eccBuffer_congr fun i hi => ?_
  have hget := store_of_mem m (a := 0) (getElem?_load d (a := 0) hi)
  rwa [Nat.zero_add] at hget

theorem eccBuffer_of_read {fuel page : Nat} {data : Nat → UInt8}
    (h : card.read fuel 0 (page * pageSizeRaw) pageSize (fun _ => 0) = some data) :
    card.Settled page ∧ eccBuffer data = eccBuffer (card.data page) := by
  cases fuel with
  | zero => simp [read] at h
  | succ fuel =>
    rw [read_page, Option.map_eq_some_iff] at h
    obtain ⟨d, hd, rfl⟩ := h
    rw [eccBuffer_read, data_eq hd]
    exact ⟨⟨fuel, by rw [hd]; rfl⟩, rfl⟩

theorem read_inv {fuel dest adr size : Nat} {m m' : Nat → UInt8} (hsize : size < 2 ^ 31)
    (h : card.read (fuel + 1) dest adr size m = some m') :
    ∃ m₁, card.tail fuel dest adr size m = some m₁ ∧
      (Looks adr size → card.Settled (adr / pageSizeRaw)) ∧
      m' = pageRead (card.data (adr / pageSizeRaw)) (adr % pageSizeRaw) (head adr size) dest m₁ := by
  rw [read_succ m hsize, Option.bind_eq_some_iff] at h
  obtain ⟨m₁, htail, h⟩ := h
  rw [Option.bind_eq_some_iff] at h
  obtain ⟨m₂, hdata, h⟩ := h
  refine ⟨m₁, htail, ?_⟩
  have hecc : pageSize < adr % pageSizeRaw + head adr size → card.Settled (adr / pageSizeRaw) ∧
      m' = store m₂ (dest + u32Sub pageSize (adr % pageSizeRaw))
        (load (eccBuffer (card.data (adr / pageSizeRaw))) 0
          (min (u32Sub (head adr size) (adr % pageSizeRaw)) eccSize)) := by
    intro hlt
    rw [if_pos hlt, Option.bind_eq_some_iff] at h
    obtain ⟨data, hread, h⟩ := h
    obtain ⟨hs, hbuf⟩ := eccBuffer_of_read hread
    exact ⟨hs, by rw [← hbuf]; exact (Option.some.inj h).symm⟩
  by_cases hoff : adr % pageSizeRaw < pageSize
  · rw [readData_of_lt _ _ _ _ _ hoff, Option.map_eq_some_iff] at hdata
    obtain ⟨d, hd, rfl⟩ := hdata
    refine ⟨fun _ => ⟨fuel, by rw [hd]; rfl⟩, ?_⟩
    rw [pageRead, if_pos hoff, data_eq hd]
    by_cases hlt : pageSize < adr % pageSizeRaw + head adr size
    · rw [if_pos hlt, (hecc hlt).2, data_eq hd]
    · rw [if_neg hlt] at h ⊢
      exact (Option.some.inj h).symm
  · rw [readData_of_ge _ _ _ _ (Nat.le_of_not_lt hoff), Option.some.injEq] at hdata
    subst hdata
    rw [pageRead, if_neg hoff]
    by_cases hlt : pageSize < adr % pageSizeRaw + head adr size
    · rw [if_pos hlt]
      exact ⟨fun _ => (hecc hlt).1, (hecc hlt).2⟩
    · refine ⟨fun hlooks => absurd hlt ?_, ?_⟩
      · have hmod : adr % pageSizeRaw < 528 := Nat.mod_lt _ (by decide)
        simp only [Looks, head, show pageSizeRaw = 528 from rfl, show pageSize = 512 from rfl]
          at hlooks hoff hmod ⊢
        omega
      · rw [if_neg hlt] at h ⊢
        exact (Option.some.inj h).symm

theorem read_intro {fuel dest adr size : Nat} {m m₁ : Nat → UInt8} (hsize : size < 2 ^ 31)
    (hdata : Looks adr size →
      card.pageData fuel (adr / pageSizeRaw) = some (card.data (adr / pageSizeRaw)))
    (htail : card.tail (fuel + 1) dest adr size m = some m₁) :
    card.read (fuel + 2) dest adr size m = some
      (pageRead (card.data (adr / pageSizeRaw)) (adr % pageSizeRaw) (head adr size) dest m₁) := by
  have hmod : adr % pageSizeRaw < 528 := Nat.mod_lt _ (by decide)
  rw [read_succ m hsize, htail, Option.bind_some]
  by_cases hlooks : Looks adr size
  · simp only [read_page, hdata hlooks, Option.map_some, Option.bind_some, eccBuffer_read,
      pageRead]
    by_cases hoff : adr % pageSizeRaw < pageSize
    · rw [readData_of_lt _ _ _ _ _ hoff, pageData_mono (Nat.le_succ fuel) (hdata hlooks),
        Option.map_some, Option.bind_some, if_pos hoff]
      split <;> rfl
    · rw [readData_of_ge _ _ _ _ (Nat.le_of_not_lt hoff), Option.bind_some, if_neg hoff]
      split <;> rfl
  · simp only [Looks, not_or, not_not, Nat.not_lt, Nat.le_zero_eq] at hlooks
    obtain ⟨hoff, rfl⟩ := hlooks
    rw [readData_of_ge _ _ _ _ (Nat.le_of_eq hoff.symm), Option.bind_some, pageRead, hoff]
    simp [head]

end FolderMemoryCard

end OmegaRed.Memcard
