import OmegaRed.Memcard.Image

/-! Which ranges `Read` reads as slices of the card's raw image. -/

namespace OmegaRed.Memcard

open Lib.Memory

/-- The ranges of a page that are read right: those without ECC bytes, those from the start of
the third block on, and those up to the page's end but for eight starts. -/
def PageWhole (offset size : Nat) : Prop :=
  offset + size ≤ 0x200 ∨
    offset ≤ 0x200 ∧ (offset = 0x100 ∨ offset + size = 0x210 ∧ ¬(0x100 < offset ∧ offset < 0x109))

theorem u32Sub_of_le {a b : Nat} (h : b ≤ a) (ha : a < 2 ^ 32) : u32Sub a b = a - b := by
  simp only [u32Sub, u32]
  omega

theorem u32Sub_of_lt {a b : Nat} (h : a < b) (hb : b ≤ 2 ^ 32) : u32Sub a b = a + (2 ^ 32 - b) := by
  simp only [u32Sub, u32]
  omega

/-- How many ECC bytes `Read` copies. -/
def eccLength (offset size : Nat) : Nat := min (u32Sub size offset) eccSize

theorem eccLength_of_le {offset size : Nat} (h : offset ≤ size) (hsize : size < 2 ^ 32) :
    eccLength offset size = min (size - offset) 16 := by
  rw [eccLength, u32Sub_of_le h hsize]
  rfl

theorem eccLength_of_lt {offset size : Nat} (h : size < offset) (hoff : offset ≤ 0x210) :
    eccLength offset size = 16 := by
  rw [eccLength, u32Sub_of_lt h (by omega)]
  simp only [eccSize]
  omega

theorem eccLength_le (offset size : Nat) : eccLength offset size ≤ 16 := Nat.min_le_right _ _

variable (d : Nat → UInt8) {offset size : Nat} (dest : Nat) (m : Nat → UInt8)

theorem pageRead_data (h : offset + size ≤ 0x200) :
    pageRead d offset size dest m = store m dest (load d offset size) := by
  rw [pageRead, if_neg (show ¬ pageSize < offset + size from Nat.not_lt.mpr h)]
  split
  · rw [Nat.min_eq_left (by simp only [pageSize]; omega)]
  · next hoff =>
    have hsize : size = 0 := by simp only [pageSize] at hoff; omega
    rw [hsize, load_zero, store_nil]

/-- A range that ends in the ECC area: its data bytes and, right behind them, ECC bytes. -/
theorem pageRead_ecc (hoff : offset ≤ 0x200) (h : 0x200 < offset + size) :
    pageRead d offset size dest m = store m dest
      (load d offset (0x200 - offset) ++ load (eccBuffer d) 0 (eccLength offset size)) := by
  have hdata : (if offset < pageSize then
      store m dest (load d offset (min size (pageSize - offset))) else m) =
      store m dest (load d offset (0x200 - offset)) := by
    split
    · rw [Nat.min_eq_right (by simp only [pageSize]; omega)]
      rfl
    · next hge =>
      rw [show 0x200 - offset = 0 by simp only [pageSize] at hge; omega, load_zero, store_nil]
  have hlen : u32Sub pageSize offset = (load d offset (0x200 - offset)).length := by
    rw [length_load, pageSize, u32Sub_of_le hoff (by decide)]
  rw [pageRead, if_pos (show pageSize < offset + size from h), hdata, hlen, store_append,
    eccLength]

theorem pageRead_of_whole (hend : offset + size ≤ 0x210) (h : PageWhole offset size) :
    pageRead d offset size dest m = store m dest (load (rawPage d) offset size) := by
  by_cases hdata : offset + size ≤ 0x200
  · rw [pageRead_data d dest m hdata]
    congr 1
    rw [load_ext_iff]
    intro i hi
    rw [rawPage, if_pos (by simp only [pageSize]; omega)]
  · obtain ⟨hoff, h⟩ := h.resolve_left hdata
    have hlen : eccLength offset size = offset + size - 0x200 := by
      by_cases hle : offset ≤ size
      · rw [eccLength_of_le hle (by omega)]
        omega
      · rw [eccLength_of_lt (by omega) (by omega)]
        omega
    have hsplit : size = (0x200 - offset) + (offset + size - 0x200) := by omega
    rw [pageRead_ecc d dest m hoff (by omega), hlen]
    conv_rhs => rw [hsplit]
    have hleft : load d offset (0x200 - offset) = load (rawPage d) offset (0x200 - offset) := by
      rw [load_ext_iff]
      intro i hi
      rw [rawPage, if_pos (by simp only [pageSize]; omega)]
    have hright : load (eccBuffer d) 0 (offset + size - 0x200) =
        load (rawPage d) (offset + (0x200 - offset)) (offset + size - 0x200) := by
      rw [load_ext_iff]
      intro i hi
      have hecc : i < eccSize := by simp only [eccSize]; omega
      have hpos : offset + (0x200 - offset) + i - pageSize = i := by
        simp only [pageSize]
        omega
      rw [rawPage, if_neg (by simp only [pageSize]; omega), hpos, Nat.zero_add,
        eccBuffer_eq d hecc]
    rw [load_add, hleft, hright]

/-- A start behind the data: the ECC is copied to a place the range does not have. -/
theorem pageRead_of_gt (hoff : 0x200 < offset) (hend : offset + size ≤ 0x210) :
    pageRead d offset size dest m (dest + u32Sub pageSize offset) = eccBuffer d 0 := by
  have hlen : min (u32Sub size offset) eccSize = 16 := eccLength_of_lt (by omega) (by omega)
  rw [pageRead, if_pos (show pageSize < offset + size by simp only [pageSize]; omega), hlen]
  have hget := getElem?_load (eccBuffer d) (a := 0) (show 0 < 16 by decide)
  have hval := store_of_mem (if offset < pageSize then
      store m dest (load d offset (min size (pageSize - offset))) else m)
    (a := dest + u32Sub pageSize offset) hget
  rwa [Nat.add_zero, Nat.add_zero] at hval

theorem length_pageRead :
    (load d offset (0x200 - offset) ++ load (eccBuffer d) 0 (eccLength offset size)).length =
      0x200 - offset + eccLength offset size := by
  rw [List.length_append, length_load, length_load]

/-- A range of a page's data that does not start behind it leaves everything but the page's
place in `dest`. -/
theorem pageRead_frame (hoff : offset ≤ 0x200) (hend : offset + size ≤ 0x210) {a : Nat}
    (ha : a < dest ∨ dest + (0x210 - offset) ≤ a) : pageRead d offset size dest m a = m a := by
  by_cases hdata : offset + size ≤ 0x200
  · rw [pageRead_data d dest m hdata]
    rcases ha with ha | ha
    · exact store_of_lt _ _ ha
    · exact store_of_ge _ _ (by rw [length_load]; omega)
  · rw [pageRead_ecc d dest m hoff (by omega)]
    rcases ha with ha | ha
    · exact store_of_lt _ _ ha
    · have hecc := eccLength_le offset size
      exact store_of_ge _ _ (by rw [length_pageRead d]; omega)

/-- A range that ends in the ECC and is not read right: the byte behind it is written, or one
of its own is not. -/
theorem pageRead_of_not_whole (hoff : offset ≤ 0x200) (hend : offset + size ≤ 0x210)
    (h : ¬ PageWhole offset size) :
    (offset + size < 0x210 ∧ ∃ v, ∀ m, pageRead d offset size dest m (dest + size) = v) ∨
      ∃ i < size, ∀ m, pageRead d offset size dest m (dest + i) = m (dest + i) := by
  have hlt : 0x200 < offset + size := by
    by_contra hle
    exact h (.inl (by omega))
  have hne : eccLength offset size ≠ offset + size - 0x200 := by
    intro heq
    refine h (.inr ⟨hoff, ?_⟩)
    by_cases hle : offset ≤ size
    · rw [eccLength_of_le hle (by omega)] at heq
      omega
    · rw [eccLength_of_lt (by omega) (by omega)] at heq
      omega
  rcases Nat.lt_or_gt_of_ne hne with hless | hmore
  · refine .inr ⟨0x200 - offset + eccLength offset size, by omega, fun m => ?_⟩
    rw [pageRead_ecc d dest m hoff hlt]
    exact store_of_ge _ _ (by rw [length_pageRead d])
  · have hle := eccLength_le offset size
    refine .inl ⟨by omega, eccBuffer d (offset + size - 0x200), fun m => ?_⟩
    rw [pageRead_ecc d dest m hoff hlt]
    have hdata : (load d offset (0x200 - offset)).length ≤ size := by
      rw [length_load]
      omega
    apply store_of_mem
    rw [List.getElem?_append_right hdata, length_load,
      show size - (0x200 - offset) = offset + size - 0x200 by omega, getElem?_load _ hmore,
      Nat.zero_add]

/-- The ranges that `Read` reads as slices of the image. -/
def Clean (adr size : Nat) : Prop :=
  adr % 0x210 + size ≤ 0x200 ∨
    adr % 0x210 ≤ 0x200 ∧ (adr % 0x210 = 0x100 ∧ adr % 0x210 + size ≤ 0x210 ∨
      ¬(0x100 < adr % 0x210 ∧ adr % 0x210 < 0x109) ∧ (adr % 0x210 + size) % 0x210 ≤ 0x200)

instance (adr size : Nat) : Decidable (Clean adr size) :=
  inferInstanceAs (Decidable (_ ∨ _))

/-- The pages whose data a call of `Read` looks at. -/
def Touches (adr size page : Nat) : Prop :=
  page = adr / 0x210 ∧ (adr % 0x210 ≠ 0x200 ∨ 0 < size) ∨
    adr / 0x210 < page ∧ page * 0x210 < adr + size

namespace FolderMemoryCard

variable {card : FolderMemoryCard} {fuel dest adr size : Nat}

/-- Whatever `dest` held, the call writes the range of the image there and nothing else. -/
def ReadsSlice (card : FolderMemoryCard) (fuel dest adr size : Nat) : Prop :=
  ∀ m, card.read fuel dest adr size m = some (store m dest (load card.image adr size))

theorem tail_of_lt (hlt : 0x210 < adr % 0x210 + size) (hend : adr + size ≤ 2 ^ 32)
    (m : Nat → UInt8) :
    card.tail fuel dest adr size m =
      card.read fuel (dest + (0x210 - adr % 0x210)) (adr + (0x210 - adr % 0x210))
        (size - (0x210 - adr % 0x210)) m := by
  have hu32 : u32 (adr + (0x210 - adr % 0x210)) = adr + (0x210 - adr % 0x210) :=
    Nat.mod_eq_of_lt (by omega)
  rw [tail, if_pos (show pageSizeRaw < adr % pageSizeRaw + size from hlt)]
  change card.read fuel _ (u32 (adr + (0x210 - adr % 0x210))) _ m = _
  rw [hu32]
  rfl

theorem tail_of_le (hle : adr % 0x210 + size ≤ 0x210) (m : Nat → UInt8) :
    card.tail fuel dest adr size m = some m := by
  rw [tail, if_neg (show ¬ pageSizeRaw < adr % pageSizeRaw + size from Nat.not_lt.mpr hle)]

theorem next_mod (adr : Nat) : (adr + (0x210 - adr % 0x210)) % 0x210 = 0 := by
  omega

theorem next_div (adr : Nat) : (adr + (0x210 - adr % 0x210)) / 0x210 = adr / 0x210 + 1 := by
  omega

theorem head_add_le (adr size : Nat) : adr % 0x210 + head adr size ≤ 0x210 := by
  rw [head, show pageSizeRaw = 0x210 from rfl]
  omega

theorem head_of_le (hle : adr % 0x210 + size ≤ 0x210) : head adr size = size := by
  rw [head, show pageSizeRaw = 0x210 from rfl]
  omega

theorem head_of_lt (hlt : 0x210 < adr % 0x210 + size) :
    head adr size = 0x210 - adr % 0x210 := by
  rw [head, show pageSizeRaw = 0x210 from rfl]
  omega

theorem read_below {m m' : Nat → UInt8} (h : card.read fuel dest adr size m = some m')
    (hsize : size < 2 ^ 31) (hend : adr + size ≤ 2 ^ 32) (hoff : adr % 0x210 ≤ 0x200)
    {a : Nat} (ha : a < dest) : m' a = m a := by
  induction fuel generalizing dest adr size m' with
  | zero => simp [read] at h
  | succ fuel ih =>
    obtain ⟨m₁, htail, -, rfl⟩ := read_inv hsize h
    have hframe : pageRead (card.data (adr / pageSizeRaw)) (adr % pageSizeRaw) (head adr size)
        dest m₁ a = m₁ a :=
      pageRead_frame _ dest m₁ hoff (head_add_le adr size) (.inl ha)
    rw [hframe]
    by_cases hlt : 0x210 < adr % 0x210 + size
    · rw [tail_of_lt hlt hend] at htail
      exact ih htail (by omega) (by omega) (by rw [next_mod]; omega) (by omega)
    · rw [tail_of_le (Nat.le_of_not_lt hlt), Option.some.injEq] at htail
      rw [htail]

theorem ReadsSlice.next (h : card.ReadsSlice (fuel + 1) dest adr size) (hsize : size < 2 ^ 31)
    (hend : adr + size ≤ 2 ^ 32) (hoff : adr % 0x210 ≤ 0x200)
    (hlt : 0x210 < adr % 0x210 + size) :
    card.ReadsSlice fuel (dest + (0x210 - adr % 0x210)) (adr + (0x210 - adr % 0x210))
      (size - (0x210 - adr % 0x210)) := by
  intro m
  obtain ⟨m₁, htail, -, hpage⟩ := read_inv hsize (h m)
  rw [tail_of_lt hlt hend] at htail
  rw [htail, Option.some.injEq]
  have hsplit := store_load_add m card.image dest adr (0x210 - adr % 0x210)
    (size - (0x210 - adr % 0x210))
  rw [show 0x210 - adr % 0x210 + (size - (0x210 - adr % 0x210)) = size by omega] at hsplit
  funext a
  by_cases ha : a < dest + (0x210 - adr % 0x210)
  · rw [read_below htail (by omega) (by omega) (by rw [next_mod]; omega) ha, store_of_lt _ _ ha]
  · have hm₁ : m₁ a = store m dest (load card.image adr size) a := by
      rw [hpage]
      exact (pageRead_frame _ dest m₁ hoff (head_add_le adr size)
        (.inr (Nat.le_of_not_lt ha))).symm
    rw [hm₁, hsplit]
    apply store_congr
    exact store_of_ge _ _ (by rw [length_load]; omega)

theorem clean_of_le (hle : adr % 0x210 + size ≤ 0x210) :
    Clean adr size ↔ PageWhole (adr % 0x210) size := by
  rw [Clean, PageWhole]
  omega

theorem clean_of_lt (hlt : 0x210 < adr % 0x210 + size) :
    Clean adr size ↔ PageWhole (adr % 0x210) (0x210 - adr % 0x210) ∧
      Clean (adr + (0x210 - adr % 0x210)) (size - (0x210 - adr % 0x210)) := by
  rw [Clean, Clean, PageWhole, next_mod]
  omega

theorem touches_of_lt (hlt : 0x210 < adr % 0x210 + size) (page : Nat) :
    Touches adr size page ↔ page = adr / 0x210 ∨
      Touches (adr + (0x210 - adr % 0x210)) (size - (0x210 - adr % 0x210)) page := by
  rw [Touches, Touches, next_mod, next_div]
  omega

theorem touches_of_le (hle : adr % 0x210 + size ≤ 0x210) (page : Nat) :
    Touches adr size page ↔ page = adr / 0x210 ∧ Looks adr size := by
  rw [Touches, Looks]
  change _ ↔ page = adr / 0x210 ∧ (adr % 0x210 ≠ 0x200 ∨ 0 < size)
  omega

theorem ReadsSlice.first (h : card.ReadsSlice (fuel + 1) dest adr size) (hsize : size < 2 ^ 31)
    (hend : adr + size ≤ 2 ^ 32) :
    adr % 0x210 ≤ 0x200 ∧ PageWhole (adr % 0x210) (head adr size) ∧
      (Looks adr size → card.Settled (adr / 0x210)) := by
  have hstep : ∀ m, ∃ m₁, card.tail fuel dest adr size m = some m₁ ∧
      (Looks adr size → card.Settled (adr / 0x210)) ∧ store m dest (load card.image adr size) =
        pageRead (card.data (adr / 0x210)) (adr % 0x210) (head adr size) dest m₁ :=
    fun m => read_inv hsize (h m)
  have hhead := head_add_le adr size
  have hoff : adr % 0x210 ≤ 0x200 := by
    by_contra hgt
    have hgt := Nat.lt_of_not_le hgt
    obtain ⟨m₁, -, -, heq⟩ := hstep fun _ => eccBuffer (card.data (adr / 0x210)) 0 + 1
    have hval := congrFun heq (dest + u32Sub pageSize (adr % 0x210))
    rw [pageRead_of_gt _ _ _ hgt hhead, store_of_ge _ _ (by
      rw [length_load, pageSize, u32Sub_of_lt hgt (by omega)]
      omega)] at hval
    simp at hval
  refine ⟨hoff, ?_, (hstep fun _ => 0).choose_spec.2.1⟩
  by_contra hnot
  rcases pageRead_of_not_whole (card.data (adr / 0x210)) dest hoff hhead hnot with
    ⟨hlt, v, hv⟩ | ⟨i, hi, hv⟩
  · have hsz : head adr size = size := head_of_le (by
      by_contra hgt
      rw [head_of_lt (Nat.lt_of_not_le hgt)] at hlt
      omega)
    obtain ⟨m₁, -, -, heq⟩ := hstep fun _ => v + 1
    have hval := congrFun heq (dest + size)
    rw [hsz] at hv hval
    rw [hv, store_of_ge _ _ (by rw [length_load])] at hval
    simp at hval
  · obtain ⟨m₁, htail, -, heq⟩ := hstep fun _ => card.image (adr + i) + 1
    have hi' : i < size := Nat.lt_of_lt_of_le hi (Nat.min_le_left _ _)
    have hval := congrFun heq (dest + i)
    rw [hv, store_of_mem _ (getElem?_load _ hi')] at hval
    have hm₁ : m₁ (dest + i) = card.image (adr + i) + 1 := by
      by_cases hlt : 0x210 < adr % 0x210 + size
      · rw [tail_of_lt hlt hend] at htail
        rw [head_of_lt hlt] at hi
        exact read_below htail (by omega) (by omega) (by rw [next_mod]; omega) (by omega)
      · rw [tail_of_le (Nat.le_of_not_lt hlt), Option.some.injEq] at htail
        rw [← htail]
    rw [hm₁] at hval
    simp at hval

theorem ReadsSlice.clean (h : card.ReadsSlice fuel dest adr size) (hsize : size < 2 ^ 31)
    (hend : adr + size ≤ 2 ^ 32) :
    Clean adr size ∧ ∀ page, Touches adr size page → card.Settled page := by
  induction fuel generalizing dest adr size with
  | zero => simpa [read] using h fun _ => 0
  | succ fuel ih =>
    obtain ⟨hoff, hwhole, hsettled⟩ := h.first hsize hend
    by_cases hlt : 0x210 < adr % 0x210 + size
    · obtain ⟨hclean, htouch⟩ := ih (h.next hsize hend hoff hlt) (by omega) (by omega)
      rw [head_of_lt hlt] at hwhole
      refine ⟨(clean_of_lt hlt).mpr ⟨hwhole, hclean⟩, fun page hpage => ?_⟩
      rcases (touches_of_lt hlt page).mp hpage with rfl | hpage
      · exact hsettled (.inr (by omega))
      · exact htouch page hpage
    · have hle := Nat.le_of_not_lt hlt
      rw [head_of_le hle] at hwhole
      refine ⟨(clean_of_le hle).mpr hwhole, fun page hpage => ?_⟩
      obtain ⟨rfl, hlooks⟩ := (touches_of_le hle page).mp hpage
      exact hsettled hlooks

theorem load_rawPage (card : FolderMemoryCard) (hle : adr % 0x210 + size ≤ 0x210) :
    load (rawPage (card.data (adr / 0x210))) (adr % 0x210) size = load card.image adr size := by
  rw [load_ext_iff]
  intro i hi
  have hdiv : (adr + i) / pageSizeRaw = adr / 0x210 := by
    rw [show pageSizeRaw = 0x210 from rfl]
    omega
  have hmod : (adr + i) % pageSizeRaw = adr % 0x210 + i := by
    rw [show pageSizeRaw = 0x210 from rfl]
    omega
  rw [image, hdiv, hmod]

theorem readsSlice_of_clean (hclean : Clean adr size) (hsize : size < 2 ^ 31)
    (hend : adr + size ≤ 2 ^ 32) (htouch : ∀ page, Touches adr size page → card.Settled page) :
    ∃ least, ∀ fuel, least ≤ fuel → ∀ dest, card.ReadsSlice fuel dest adr size := by
  induction size using Nat.strong_induction_on generalizing adr with
  | _ size ih =>
  -- the first page, once the fuel is enough for its data
  have hpage : (Looks adr size → card.Settled (adr / 0x210)) → ∃ least, ∀ fuel, least ≤ fuel →
      ∀ dest m m₁, card.tail (fuel + 1) dest adr size m = some m₁ →
        card.read (fuel + 2) dest adr size m = some
          (pageRead (card.data (adr / 0x210)) (adr % 0x210) (head adr size) dest m₁) := by
    intro hsettled
    by_cases hlooks : Looks adr size
    · obtain ⟨least, hdata⟩ := (hsettled hlooks).data_eq
      exact ⟨least, fun fuel hle dest m m₁ htail =>
        read_intro hsize (fun _ => hdata fuel hle) htail⟩
    · exact ⟨0, fun fuel _ dest m m₁ htail =>
        read_intro hsize (fun h => absurd h hlooks) htail⟩
  by_cases hlt : 0x210 < adr % 0x210 + size
  · obtain ⟨hwhole, hnext⟩ := (clean_of_lt hlt).mp hclean
    obtain ⟨least, hread⟩ := hpage fun _ => htouch _ ((touches_of_lt hlt _).mpr (.inl rfl))
    have hshort : size - (0x210 - adr % 0x210) < size := by omega
    obtain ⟨least', htail⟩ := ih _ hshort hnext (by omega) (by omega) fun page hp =>
      htouch page ((touches_of_lt hlt page).mpr (.inr hp))
    refine ⟨max least least' + 2, fun fuel hle dest m => ?_⟩
    obtain ⟨fuel, rfl⟩ : ∃ n, fuel = n + 2 := ⟨fuel - 2, by omega⟩
    have hm₁ := htail (fuel + 1) (by omega) (dest + (0x210 - adr % 0x210)) m
    rw [← tail_of_lt hlt hend] at hm₁
    rw [hread fuel (by omega) dest m _ hm₁, head_of_lt hlt,
      pageRead_of_whole _ _ _ (by omega) hwhole, load_rawPage card (by omega)]
    rw [← store_load_add', show 0x210 - adr % 0x210 + (size - (0x210 - adr % 0x210)) = size by omega]
  · have hle := Nat.le_of_not_lt hlt
    obtain ⟨least, hread⟩ := hpage fun hl => htouch _ ((touches_of_le hle _).mpr ⟨rfl, hl⟩)
    refine ⟨least + 2, fun fuel hfuel dest m => ?_⟩
    obtain ⟨fuel, rfl⟩ : ∃ n, fuel = n + 2 := ⟨fuel - 2, by omega⟩
    rw [hread fuel (by omega) dest m m (tail_of_le hle m), head_of_le hle,
      pageRead_of_whole _ _ _ hle ((clean_of_le hle).mp hclean), load_rawPage card hle]

end FolderMemoryCard

end OmegaRed.Memcard
