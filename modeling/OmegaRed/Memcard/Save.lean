import OmegaRed.Memcard.Slice

/-! What a save changes of the card's image, and the reads behind it. -/

namespace OmegaRed.Memcard

open Lib.Memory

namespace FolderMemoryCard

variable {card saved : FolderMemoryCard} {fuel src adr size : Nat} {m : Nat → UInt8}

/-- The card with other caches. -/
def withCaches (card : FolderMemoryCard) (cache oldDataCache : Nat → Option (Nat → UInt8)) :
    FolderMemoryCard :=
  { card with cache := cache, oldDataCache := oldDataCache }

theorem getFileEntryCluster_withCaches (c o : Nat → Option (Nat → UInt8))
    (currentCluster searchCluster fileCount : Nat) :
    (card.withCaches c o).getFileEntryCluster fuel currentCluster searchCluster fileCount =
      card.getFileEntryCluster fuel currentCluster searchCluster fileCount := by
  induction fuel generalizing currentCluster fileCount with
  | zero => rfl
  | succ fuel ih =>
    simp only [getFileEntryCluster, ih]
    rfl

theorem getSystemBlockPointer_withCaches (c o : Nat → Option (Nat → UInt8)) (adr : Nat) :
    (card.withCaches c o).getSystemBlockPointer fuel adr =
      card.getSystemBlockPointer fuel adr := by
  simp only [getSystemBlockPointer, getFileEntryPointer, getFileEntryCluster_withCaches]
  rfl

theorem pageData_withCaches (fuel : Nat) {c : Nat → Option (Nat → UInt8)}
    (o : Nat → Option (Nat → UInt8)) {page : Nat} (h : c page = card.cache page) :
    (card.withCaches c o).pageData fuel page = card.pageData fuel page := by
  rw [pageData, pageData, getSystemBlockPointer_withCaches, ← h]
  rfl

theorem settled_of_pageData_eq {page : Nat}
    (h : ∀ fuel, saved.pageData fuel page = card.pageData fuel page) :
    (saved.Settled page ↔ card.Settled page) ∧ saved.data page = card.data page := by
  have hiff : saved.Settled page ↔ card.Settled page := by simp only [Settled, h]
  refine ⟨hiff, ?_⟩
  by_cases hs : card.Settled page
  · obtain ⟨fuel, hdata⟩ := hs.data_eq
    have heq := hdata fuel (Nat.le_refl _)
    rw [← h] at heq
    exact data_eq heq
  · rw [data, data, dif_neg hs, dif_neg (hiff.not.mpr hs)]

/-- The image of `saved` is that of `card` with the data bytes of a range replaced. -/
structure Patched (card saved : FolderMemoryCard) (adr size : Nat) (bytes : Nat → UInt8) :
    Prop where
  settled : ∀ page, saved.Settled page ↔ card.Settled page
  image : ∀ a, a % 0x210 < 0x200 →
    saved.image a = if adr ≤ a ∧ a < adr + size then bytes (a - adr) else card.image a

theorem image_of_lt (card : FolderMemoryCard) {a : Nat} (h : a % 0x210 < 0x200) :
    card.image a = card.data (a / 0x210) (a % 0x210) := by
  rw [image, rawPage]
  exact if_pos h

theorem Patched.of_ecc (h : 0x200 ≤ adr % 0x210) (hsize : adr % 0x210 + size ≤ 0x210)
    (bytes : Nat → UInt8) : Patched card card adr size bytes where
  settled _ := Iff.rfl
  image a ha := by
    rw [if_neg]
    rintro ⟨hle, hlt⟩
    have hdiv : a / 0x210 = adr / 0x210 := by omega
    omega

theorem pageData_cached (card : FolderMemoryCard) (fuel : Nat)
    {c : Nat → Option (Nat → UInt8)} (o : Nat → Option (Nat → UInt8)) {page : Nat} {raw : Nat → UInt8} (h : c page = some raw) :
    (card.withCaches c o).pageData fuel page = some raw := by
  rw [pageData, show (card.withCaches c o).cache page = some raw from h]

/-- What a save leaves in the cache for its page is the page's data, with the range replaced. -/
theorem Patched.of_cache (h : adr % 0x210 < 0x200) (hsize : adr % 0x210 + size ≤ 0x210)
    (hs : card.Settled (adr / 0x210)) {raw : Nat → UInt8}
    (hraw : ∀ i, i < 0x200 → raw i = card.data (adr / 0x210) i) {c : Nat → Option (Nat → UInt8)}
    (o : Nat → Option (Nat → UInt8))
    (hc : c (adr / 0x210) =
      some (store raw (adr % 0x210) (load m src (min size (0x200 - adr % 0x210)))))
    (hother : ∀ page, page ≠ adr / 0x210 → c page = card.cache page) :
    Patched card (card.withCaches c o) adr size (fun i => m (src + i)) := by
  have hpage := pageData_cached card 0 o hc
  have hrest : ∀ page, page ≠ adr / 0x210 → _ := fun page hne =>
    settled_of_pageData_eq fun fuel => pageData_withCaches fuel o (hother page hne)
  constructor
  · intro page
    by_cases heq : page = adr / 0x210
    · subst heq
      exact ⟨fun _ => hs, fun _ => ⟨0, by rw [hpage]; rfl⟩⟩
    · exact (hrest page heq).1
  · intro a ha
    rw [image_of_lt _ ha, image_of_lt _ ha]
    by_cases heq : a / 0x210 = adr / 0x210
    · rw [heq, data_eq hpage]
      by_cases hin : adr ≤ a ∧ a < adr + size
      · obtain ⟨k, rfl⟩ := Nat.exists_eq_add_of_le hin.1
        have hmod : (adr + k) % 0x210 = adr % 0x210 + k := by omega
        rw [if_pos hin, Nat.add_sub_cancel_left, hmod]
        exact store_of_mem raw (getElem?_load m (by omega))
      · rw [if_neg hin, ← hraw _ ha]
        have hlen := length_load m src (min size (0x200 - adr % 0x210))
        by_cases hlt : a % 0x210 < adr % 0x210
        · exact store_of_lt raw _ hlt
        · exact store_of_ge raw _ (by omega)
    · rw [(hrest _ heq).2, if_neg]
      rintro ⟨hle, hlt⟩
      exact heq (by omega)

theorem Patched.trans {card₁ card₂ : FolderMemoryCard} {k : Nat} {bytes : Nat → UInt8}
    (h₁ : Patched card card₁ (adr + k) (size - k) (fun i => bytes (k + i)))
    (h₂ : Patched card₁ card₂ adr k bytes) (hk : k ≤ size) :
    Patched card card₂ adr size bytes where
  settled page := (h₂.settled page).trans (h₁.settled page)
  image a ha := by
    rw [h₂.image a ha, h₁.image a ha]
    by_cases hhead : adr ≤ a ∧ a < adr + k
    · rw [if_pos hhead, if_pos (by omega)]
    · rw [if_neg hhead]
      by_cases htail : adr + k ≤ a ∧ a < adr + k + (size - k)
      · rw [if_pos htail, if_pos (by omega), show k + (a - (adr + k)) = a - adr by omega]
      · rw [if_neg htail, if_neg (by omega)]

theorem savePage_other (h : card.savePage fuel src adr size m = some saved) {page : Nat}
    (hne : page ≠ adr / 0x210) (fuel' : Nat) :
    saved.pageData fuel' page = card.pageData fuel' page := by
  unfold savePage at h
  dsimp only at h
  by_cases hoff : adr % pageSizeRaw < pageSize
  · rw [if_pos hoff] at h
    cases hcache : card.cache (adr / pageSizeRaw) with
    | none =>
      simp only [hcache, Option.bind_eq_bind, Option.bind_eq_some_iff, Option.some.injEq] at h
      obtain ⟨cachePage, -, rfl⟩ := h
      exact pageData_withCaches _ _ (Function.update_of_ne hne _ _)
    | some cachePage =>
      simp only [hcache, Option.some.injEq] at h
      subst h
      exact pageData_withCaches _ card.oldDataCache (Function.update_of_ne hne _ _)
  · rw [if_neg hoff, Option.some.injEq] at h
    rw [h]

theorem savePage_patched (h : card.savePage fuel src adr size m = some saved)
    (hsize : adr % 0x210 + size ≤ 0x210) :
    Patched card saved adr size (fun i => m (src + i)) := by
  unfold savePage at h
  dsimp only at h
  by_cases hoff : adr % pageSizeRaw < pageSize
  · rw [if_pos hoff] at h
    cases hcache : card.cache (adr / pageSizeRaw) with
    | none =>
      simp only [hcache, Option.bind_eq_bind, Option.bind_eq_some_iff, Option.some.injEq] at h
      obtain ⟨cachePage, hload, rfl⟩ := h
      have hread := readDataWithoutCache_eq card fuel 0 (adr / pageSizeRaw) pageSize 0
        (fun _ => 0) hcache (show 0 < pageSize by decide)
      rw [Nat.add_zero, hload, eq_comm, Option.map_eq_some_iff] at hread
      obtain ⟨d, hd, rfl⟩ := hread
      have hdata : card.data (adr / 0x210) = d := data_eq hd
      refine Patched.of_cache hoff hsize ⟨fuel, ?_⟩ (fun i hi => ?_) _
        (Function.update_self _ _ _) fun page hne => Function.update_of_ne hne _ _
      · exact Option.isSome_of_mem hd
      · have hval := store_of_mem (fun _ => 0) (a := 0) (getElem?_load d (a := 0)
          (show i < pageSize from hi))
        rw [Nat.zero_add] at hval
        rw [hdata]
        exact hval
    | some cachePage =>
      simp only [hcache, Option.some.injEq] at h
      subst h
      have hd : card.pageData 0 (adr / 0x210) = some cachePage := by
        rw [pageData, show card.cache (adr / 0x210) = some cachePage from hcache]
      exact Patched.of_cache hoff hsize ⟨0, Option.isSome_of_mem hd⟩
        (fun i _ => by rw [data_eq hd]) card.oldDataCache (Function.update_self _ _ _)
        fun page hne => Function.update_of_ne hne _ _
  · rw [if_neg hoff, Option.some.injEq] at h
    subst h
    exact Patched.of_ecc (Nat.le_of_not_lt hoff) hsize _

/-- The calls of `Save` for the pages behind the first. -/
def saveTail (card : FolderMemoryCard) (fuel src adr size : Nat) (m : Nat → UInt8) :
    Option FolderMemoryCard :=
  if 0x210 < adr % 0x210 + size then
    save fuel (src + (0x210 - adr % 0x210)) (u32 (adr + (0x210 - adr % 0x210)))
      (size - (0x210 - adr % 0x210)) m card
  else some card

theorem save_succ (card : FolderMemoryCard) (fuel src adr : Nat) (m : Nat → UInt8)
    (hsize : size < 2 ^ 31) :
    card.save (fuel + 1) src adr size m =
      (card.saveTail fuel src adr size m).bind fun card =>
        card.savePage fuel src adr (head adr size) m := by
  have hmod : adr % 0x210 < 0x210 := Nat.mod_lt _ (by decide)
  have hlast : u32 (adr % pageSizeRaw + size) = adr % pageSizeRaw + size := by
    rw [u32, Nat.mod_eq_of_lt]
    change adr % 0x210 + size < 2 ^ 32
    omega
  have hhead : (if pageSizeRaw < adr % pageSizeRaw + size then pageSizeRaw - adr % pageSizeRaw
      else size) = head adr size := by
    rw [head]
    change (if 0x210 < adr % 0x210 + size then 0x210 - adr % 0x210 else size) =
      min size (0x210 - adr % 0x210)
    split <;> omega
  simp only [save, hlast, hhead, Option.bind_eq_bind]
  by_cases hlt : pageSizeRaw < adr % pageSizeRaw + size
  · rw [if_pos hlt, saveTail, if_pos (show 0x210 < adr % 0x210 + size from hlt)]
    rfl
  · rw [if_neg hlt, saveTail, if_neg (show ¬ 0x210 < adr % 0x210 + size from hlt)]

theorem saveTail_of_lt (hlt : 0x210 < adr % 0x210 + size) (hend : adr + size ≤ 2 ^ 32) :
    card.saveTail fuel src adr size m =
      card.save fuel (src + (0x210 - adr % 0x210)) (adr + (0x210 - adr % 0x210))
        (size - (0x210 - adr % 0x210)) m := by
  have hu32 : u32 (adr + (0x210 - adr % 0x210)) = adr + (0x210 - adr % 0x210) :=
    Nat.mod_eq_of_lt (by omega)
  rw [saveTail, if_pos hlt, hu32]

/-- A save that returns has replaced the data bytes of its range, and nothing else. -/
theorem save_patched (h : card.save fuel src adr size m = some saved) (hsize : size < 2 ^ 31)
    (hend : adr + size ≤ 2 ^ 32) : Patched card saved adr size (fun i => m (src + i)) := by
  induction fuel generalizing card saved src adr size with
  | zero => simp [save] at h
  | succ fuel ih =>
    rw [save_succ _ _ _ _ _ hsize, Option.bind_eq_some_iff] at h
    obtain ⟨card₁, htail, hpage⟩ := h
    have hfirst := savePage_patched hpage (head_add_le adr size)
    by_cases hlt : 0x210 < adr % 0x210 + size
    · rw [saveTail_of_lt hlt hend] at htail
      have hrest := ih htail (by omega) (by omega)
      rw [head_of_lt hlt] at hfirst
      refine Patched.trans (k := 0x210 - adr % 0x210) ?_ hfirst (by omega)
      simpa only [Nat.add_assoc] using hrest
    · rw [saveTail, if_neg hlt, Option.some.injEq] at htail
      subst htail
      rwa [head_of_le (Nat.le_of_not_lt hlt)] at hfirst

/-- The pages whose data a save looks at. -/
def SaveTouches (adr size page : Nat) : Prop :=
  page = adr / 0x210 ∧ adr % 0x210 < 0x200 ∨ adr / 0x210 < page ∧ page * 0x210 < adr + size

theorem save_before (h : card.save fuel src adr size m = some saved) (hsize : size < 2 ^ 31)
    (hend : adr + size ≤ 2 ^ 32) {page : Nat} (hpage : page < adr / 0x210) (fuel' : Nat) :
    saved.pageData fuel' page = card.pageData fuel' page := by
  induction fuel generalizing saved src adr size with
  | zero => simp [save] at h
  | succ fuel ih =>
    rw [save_succ _ _ _ _ _ hsize, Option.bind_eq_some_iff] at h
    obtain ⟨card₁, htail, hfirst⟩ := h
    rw [savePage_other hfirst (Nat.ne_of_lt hpage)]
    by_cases hlt : 0x210 < adr % 0x210 + size
    · rw [saveTail_of_lt hlt hend] at htail
      exact ih htail (by omega) (by omega) (by rw [next_div]; omega)
    · rw [saveTail, if_neg hlt, Option.some.injEq] at htail
      rw [htail]

theorem savePage_isSome (hs : adr % 0x210 < 0x200 → (card.pageData fuel (adr / 0x210)).isSome) :
    (card.savePage fuel src adr size m).isSome := by
  unfold savePage
  dsimp only
  by_cases hoff : adr % pageSizeRaw < pageSize
  · obtain ⟨d, hd⟩ := Option.isSome_iff_exists.mp (hs hoff)
    rw [if_pos hoff]
    cases hcache : card.cache (adr / pageSizeRaw) with
    | none =>
      have hread := readDataWithoutCache_eq card fuel 0 (adr / pageSizeRaw) pageSize 0
        (fun _ => 0) hcache (show 0 < pageSize by decide)
      rw [Nat.add_zero, show card.pageData fuel (adr / pageSizeRaw) = some d from hd] at hread
      simp [hread]
    | some cachePage => rfl
  · rw [if_neg hoff]
    rfl

theorem save_isSome (hsize : size < 2 ^ 31) (hend : adr + size ≤ 2 ^ 32)
    (htouch : ∀ page, SaveTouches adr size page → card.Settled page) :
    ∃ least, ∀ fuel, least ≤ fuel → ∀ src, (card.save fuel src adr size m).isSome := by
  induction size using Nat.strong_induction_on generalizing adr with
  | _ size ih =>
  have hfirst : ∃ least, ∀ fuel, least ≤ fuel →
      adr % 0x210 < 0x200 → (card.pageData fuel (adr / 0x210)).isSome := by
    by_cases hoff : adr % 0x210 < 0x200
    · obtain ⟨least, hdata⟩ := (htouch _ (.inl ⟨rfl, hoff⟩)).data_eq
      exact ⟨least, fun fuel hle _ => Option.isSome_of_mem (hdata fuel hle)⟩
    · exact ⟨0, fun _ _ h => absurd h hoff⟩
  obtain ⟨least, hdata⟩ := hfirst
  by_cases hlt : 0x210 < adr % 0x210 + size
  · have hshort : size - (0x210 - adr % 0x210) < size := by omega
    have hnext : adr + (0x210 - adr % 0x210) + (size - (0x210 - adr % 0x210)) ≤ 2 ^ 32 := by omega
    obtain ⟨least', htail⟩ := ih _ hshort (by omega) hnext fun page hpage =>
      htouch page (by rw [SaveTouches, next_mod, next_div] at hpage; rw [SaveTouches]; omega)
    refine ⟨max least least' + 1, fun fuel hle src => ?_⟩
    obtain ⟨fuel, rfl⟩ : ∃ n, fuel = n + 1 := ⟨fuel - 1, by omega⟩
    obtain ⟨card₁, hcard₁⟩ := Option.isSome_iff_exists.mp
      (htail fuel (by omega) (src + (0x210 - adr % 0x210)))
    rw [save_succ _ _ _ _ _ hsize, saveTail_of_lt hlt hend, hcard₁, Option.bind_some]
    refine savePage_isSome fun hoff => ?_
    rw [save_before hcard₁ (by omega) hnext (by rw [next_div]; omega)]
    exact hdata fuel (by omega) hoff
  · refine ⟨least + 1, fun fuel hle src => ?_⟩
    obtain ⟨fuel, rfl⟩ : ∃ n, fuel = n + 1 := ⟨fuel - 1, by omega⟩
    rw [save_succ _ _ _ _ _ hsize, saveTail, if_neg hlt, Option.bind_some]
    exact savePage_isSome (hdata fuel (by omega))

/-- Consecutive calls of `Read`, each going on where the last one ended. -/
def readPieces (card : FolderMemoryCard) (fuel : Nat) :
    Nat → Nat → List Nat → (Nat → UInt8) → Option (Nat → UInt8)
  | _, _, [], m => some m
  | dest, adr, size :: sizes, m => do
    let m ← card.read fuel dest adr size m
    card.readPieces fuel (dest + size) (adr + size) sizes m

/-- The calls that read slices: the condition on one call. -/
def ReadsRight (card : FolderMemoryCard) (adr size : Nat) : Prop :=
  Clean adr size ∧ ∀ page, Touches adr size page → card.Settled page

def PiecesRight (card : FolderMemoryCard) : Nat → List Nat → Prop
  | _, [] => True
  | adr, size :: sizes => card.ReadsRight adr size ∧ card.PiecesRight (adr + size) sizes

theorem readPieces_slice {sizes : List Nat} (h : card.PiecesRight adr sizes)
    (hsize : sizes.sum < 2 ^ 31) (hend : adr + sizes.sum ≤ 2 ^ 32) :
    ∃ least, ∀ fuel, least ≤ fuel → ∀ dest m,
      card.readPieces fuel dest adr sizes m = some (store m dest (load card.image adr sizes.sum)) := by
  induction sizes generalizing adr with
  | nil => exact ⟨0, fun _ _ dest m => by simp [readPieces]⟩
  | cons size sizes ih =>
    rw [List.sum_cons] at hsize hend
    obtain ⟨hfirst, hrest⟩ := h
    obtain ⟨least, hread⟩ := readsSlice_of_clean hfirst.1 (by omega) (by omega) hfirst.2
    obtain ⟨least', hpieces⟩ := ih hrest (by omega) (by omega)
    refine ⟨max least least', fun fuel hle dest m => ?_⟩
    rw [readPieces, hread fuel (by omega) dest m, Option.bind_eq_bind, Option.bind_some,
      hpieces fuel (by omega), List.sum_cons, store_load_add]

/-- A read behind a save finds `bytes` on the data bytes of the saved range and the old data on
the others. -/
def ReadsBack (card saved : FolderMemoryCard) (adr size : Nat) (bytes : Nat → UInt8)
    (dest a n : Nat) : Prop :=
  ∃ fuel, ∀ m, ∃ m', saved.read fuel dest a n m = some m' ∧
    ∀ i, i < n → (a + i) % 0x210 < 0x200 → m' (dest + i) =
      if adr ≤ a + i ∧ a + i < adr + size then bytes (a + i - adr) else card.image (a + i)

theorem Patched.readsBack {bytes : Nat → UInt8} (h : Patched card saved adr size bytes)
    {dest a n : Nat} (hright : card.ReadsRight a n) (hn : n < 2 ^ 31) (hend : a + n ≤ 2 ^ 32) :
    ReadsBack card saved adr size bytes dest a n := by
  obtain ⟨least, hread⟩ := readsSlice_of_clean hright.1 hn hend
    fun page hpage => (h.settled page).mpr (hright.2 page hpage)
  refine ⟨least, fun m => ⟨_, hread least (Nat.le_refl _) dest m, fun i hi hdata => ?_⟩⟩
  rw [store_of_mem m (getElem?_load saved.image hi), h.image _ hdata]

/-- A card whose pages are all in the cache. -/
def cached (data : Nat → Nat → UInt8) : FolderMemoryCard where
  superBlock _ := 0
  indirectFat _ := 0
  fat _ := 0
  backupBlock1 _ := 0
  backupBlock2 _ := 0
  fileEntryDict _ := none
  fileMetadataQuickAccess _ := none
  cache page := some (data page)
  oldDataCache _ := none

theorem settled_cached (data : Nat → Nat → UInt8) (page : Nat) : (cached data).Settled page :=
  ⟨0, rfl⟩

end FolderMemoryCard

end OmegaRed.Memcard
