import Mathlib.Data.Nat.ModEq
import Mathlib.Tactic.Linarith
import Mathlib.Tactic.LinearCombination
import Mathlib.Tactic.Ring
import OmegaRed.GSdx.Swizzle

/-! The address functions of a format, in terms of the page and the place in it. -/

namespace OmegaRed.GSdx

open OmegaRed.Lib

theorem clear5_shiftRight {k : Nat} (n : Nat) (h : 5 ≤ k) :
    clear5 (n >>> (k - 5)) = 32 * (n >>> k) := by
  obtain ⟨k, rfl⟩ := Nat.exists_eq_add_of_le' h
  rw [clear5, Nat.add_sub_cancel, Nat.shiftRight_add n k 5, Nat.shiftRight_eq_div_pow _ 5,
    Nat.mul_comm]

theorem mod_shiftRight {a b : Nat} (n : Nat) (h : a ≤ b) :
    (n % 2 ^ b) >>> a = n >>> a % 2 ^ (b - a) := by
  obtain ⟨c, rfl⟩ := Nat.exists_eq_add_of_le h
  rw [Nat.add_sub_cancel_left, Nat.shiftRight_eq_div_pow, Nat.shiftRight_eq_div_pow, Nat.pow_add,
    Nat.mod_mul_right_div_self]

theorem mod_eq_of_parts {a b n n' : Nat} (h : a ≤ b)
    (hdiv : n >>> a % 2 ^ (b - a) = n' >>> a % 2 ^ (b - a)) (hmod : n % 2 ^ a = n' % 2 ^ a) :
    n % 2 ^ b = n' % 2 ^ b := by
  rw [← mod_shiftRight n h, ← mod_shiftRight n' h, Nat.shiftRight_eq_div_pow,
    Nat.shiftRight_eq_div_pow] at hdiv
  rw [← Nat.mod_mod_of_dvd n (Nat.pow_dvd_pow 2 h),
    ← Nat.mod_mod_of_dvd n' (Nat.pow_dvd_pow 2 h)] at hmod
  rw [← Nat.div_add_mod (n % 2 ^ b) (2 ^ a), hdiv, hmod, Nat.div_add_mod]

theorem eq_of_div_mod {a n n' : Nat} (hdiv : n >>> a = n' >>> a)
    (hmod : n % 2 ^ a = n' % 2 ^ a) : n = n' := by
  rw [Nat.shiftRight_eq_div_pow, Nat.shiftRight_eq_div_pow] at hdiv
  rw [← Nat.div_add_mod n (2 ^ a), hdiv, hmod, Nat.div_add_mod]

theorem digits_inj {d q q' r r' : Nat} (hr : r < d) (hr' : r' < d)
    (h : q * d + r = q' * d + r') : q = q' ∧ r = r' := by
  have hd : 0 < d := Nat.lt_of_le_of_lt (Nat.zero_le r) hr
  have hq := congrArg (· / d) h
  have hrem := congrArg (· % d) h
  simp only [Nat.mul_comm _ d, Nat.mul_add_div hd, Nat.div_eq_of_lt hr, Nat.div_eq_of_lt hr',
    Nat.mul_add_mod, Nat.mod_eq_of_lt hr, Nat.mod_eq_of_lt hr', Nat.add_zero] at hq hrem
  exact ⟨hq, hrem⟩

namespace Swizzle

variable {s : Swizzle} {x y bp bw : Nat}

/-- The cells of a block. -/
def cells (s : Swizzle) : Nat := 2 ^ (s.bsx + s.bsy)

/-- The page of a pixel, counted from the page of the base. -/
def pageNumber (s : Swizzle) (x y bw : Nat) : Nat :=
  (y >>> s.pgy) * (bw >>> (s.pgx - 6)) + (x >>> s.pgx)

/-- The cell of a pixel, counted from the start of its page. -/
def place (s : Swizzle) (x y : Nat) : Nat := s.block x y * s.cells + s.column x y

theorem cells_pos : 0 < s.cells := Nat.two_pow_pos _

theorem block_lt : s.block x y < 32 := s.blocks_lt _ (s.blockTable.get_mem _ _)

theorem column_lt : s.column x y < s.cells := s.columns_lt _ (s.columnTable.get_mem _ _)

theorem place_lt : s.place x y < 32 * s.cells :=
  calc s.block x y * s.cells + s.column x y
    _ < s.block x y * s.cells + s.cells := Nat.add_lt_add_left column_lt _
    _ = (s.block x y + 1) * s.cells := (Nat.succ_mul _ _).symm
    _ ≤ 32 * s.cells := Nat.mul_le_mul_right _ block_lt

theorem place_div : s.place x y / s.cells = s.block x y := by
  rw [place, Nat.mul_comm, Nat.mul_add_div cells_pos, Nat.div_eq_of_lt column_lt, Nat.add_zero]

theorem blockNumber_eq :
    s.blockNumber x y bp bw = bp + 32 * s.pageNumber x y bw + s.block x y := by
  rw [blockNumber, clear5_shiftRight y s.pgy_ge,
    clear5_shiftRight x (Nat.le_of_succ_le s.pgx_ge), pageNumber, Nat.mul_add, Nat.mul_assoc,
    Nat.add_assoc bp]

theorem pixelAddressOrg_eq :
    s.pixelAddressOrg x y bp bw = (bp + 32 * s.pageNumber x y bw) * s.cells + s.place x y := by
  rw [pixelAddressOrg, blockNumber_eq, Nat.shiftLeft_eq, place, cells, Nat.add_mul, Nat.add_assoc]

theorem block_mod : s.block (x % 2 ^ s.pgx) (y % 2 ^ s.pgy) = s.block x y := by
  rw [block, block, mod_shiftRight x s.bsx_le, mod_shiftRight y s.bsy_le,
    Table.get_mod_row, Table.get_mod_column]

theorem column_mod : s.column (x % 2 ^ s.pgx) (y % 2 ^ s.pgy) = s.column x y := by
  rw [column, column, ← Table.get_mod_row, ← Table.get_mod_column,
    Nat.mod_mod_of_dvd _ (Nat.pow_dvd_pow 2 s.bsx_le),
    Nat.mod_mod_of_dvd _ (Nat.pow_dvd_pow 2 s.bsy_le), Table.get_mod_row, Table.get_mod_column]

theorem pageNumber_of_lt (hx : x < 2 ^ s.pgx) (hy : y < 2 ^ s.pgy) :
    s.pageNumber x y bw = 0 := by
  rw [pageNumber, Nat.shiftRight_eq_div_pow, Nat.div_eq_of_lt hy, Nat.zero_mul, Nat.zero_add,
    Nat.shiftRight_eq_div_pow, Nat.div_eq_of_lt hx]

theorem pixelAddress_eq :
    s.pixelAddress x y bp bw =
      ((bp / 32 + s.pageNumber x y bw) % 512 * 32 + bp % 32) * s.cells + s.place x y := by
  have hx : x % 2 ^ s.pgx < 2 ^ s.pgx := Nat.mod_lt _ (Nat.two_pow_pos _)
  have hy : y % 2 ^ s.pgy < 2 ^ s.pgy := Nat.mod_lt _ (Nat.two_pow_pos _)
  simp only [pixelAddress, pageOffset, get_ofFn]
  rw [pixelAddressOrg_eq, pageNumber_of_lt hx hy, place, block_mod, column_mod, ← place,
    Nat.shiftLeft_eq, Nat.shiftRight_eq_div_pow bp 5, pageNumber, MAX_PAGES, cells, Nat.add_assoc,
    Nat.pow_add 2 _ 5]
  ring

theorem like_shiftRight : s.like y >>> s.bsy = 0 := by
  rw [Nat.shiftRight_eq_div_pow, Nat.div_eq_of_lt (s.like_lt y)]

theorem block_apart :
    s.block x y + s.block 0 (s.like y) = s.block 0 y + s.block x (s.like y) := by
  have h := s.blocks_apart _ (Nat.mod_lt (y >>> s.bsy) (Nat.two_pow_pos _)) _
    (Nat.mod_lt (x >>> s.bsx) (Nat.two_pow_pos _))
  rw [Table.get_mod_row, Table.get_mod_row, Table.get_mod_column, Table.get_mod_column] at h
  rw [block, block, block, block, like_shiftRight, Nat.zero_shiftRight]
  exact h

theorem column_apart :
    s.column x y + s.column 0 (s.like y) = s.column 0 y + s.column x (s.like y) := by
  have h := s.columns_apart _ (Nat.mod_lt y (Nat.two_pow_pos _)) _
    (Nat.mod_lt x (Nat.two_pow_pos _))
  rw [Table.get_mod_row, Table.get_mod_row, Table.get_mod_column, Table.get_mod_column,
    s.like_mod] at h
  exact h

theorem place_apart :
    s.place x y + s.place 0 (s.like y) = s.place 0 y + s.place x (s.like y) :=
  calc s.place x y + s.place 0 (s.like y)
    _ = (s.block x y + s.block 0 (s.like y)) * s.cells +
        (s.column x y + s.column 0 (s.like y)) := by rw [place, place]; ring
    _ = (s.block 0 y + s.block x (s.like y)) * s.cells +
        (s.column 0 y + s.column x (s.like y)) := by rw [block_apart, column_apart]
    _ = s.place 0 y + s.place x (s.like y) := by rw [place, place]; ring

/-- The cells of the 4 MiB. -/
def memoryCells (s : Swizzle) : Nat := MAX_BLOCKS * s.cells

theorem pixelAddressOrg_eq_add :
    s.pixelAddressOrg x y bp bw =
      s.pixelAddress x y bp bw + (bp / 32 + s.pageNumber x y bw) / 512 * s.memoryCells := by
  have hpage : bp + 32 * s.pageNumber x y bw =
      (bp / 32 + s.pageNumber x y bw) % 512 * 32 + bp % 32 +
        (bp / 32 + s.pageNumber x y bw) / 512 * 16384 := by omega
  rw [pixelAddressOrg_eq, pixelAddress_eq, hpage, memoryCells, MAX_BLOCKS]
  ring

theorem pixelAddress_mod :
    s.pixelAddress x y bp bw % s.memoryCells = s.pixelAddressOrg x y bp bw % s.memoryCells := by
  rw [pixelAddressOrg_eq_add, Nat.add_mul_mod_self_right]

theorem pixelAddress_div :
    s.pixelAddress x y bp bw / s.cells % MAX_BLOCKS = s.blockNumber x y bp bw % MAX_BLOCKS := by
  rw [pixelAddress_eq, blockNumber_eq, Nat.mul_comm, Nat.mul_add_div cells_pos, place_div,
    MAX_BLOCKS]
  omega

theorem pixelAddress_lt : s.pixelAddress x y bp bw < 2 * s.memoryCells := by
  have hplace : s.place x y < 32 * s.cells := place_lt
  have hpage : (bp / 32 + s.pageNumber x y bw) % 512 * 32 + bp % 32 ≤ 16383 := by omega
  have hcells := Nat.mul_le_mul_right s.cells hpage
  rw [pixelAddress_eq, memoryCells, MAX_BLOCKS]
  omega

/-- `pa(0, y) + rowOffset[y & 7][x]` -/
def rowAddress (s : Swizzle) (x y bp bw : Nat) (h : x < 4096) : Int :=
  s.pixelAddress 0 y bp bw + (s.rowOffset (s.like y)).get ⟨x, h⟩

theorem like_lt_page : s.like y < 2 ^ s.pgy :=
  Nat.lt_of_lt_of_le (s.like_lt y) (Nat.pow_le_pow_right Nat.two_pos s.bsy_le)

theorem pageNumber_like : s.pageNumber x (s.like y) bw = x >>> s.pgx := by
  rw [pageNumber, Nat.shiftRight_eq_div_pow (s.like y), Nat.div_eq_of_lt like_lt_page,
    Nat.zero_mul, Nat.zero_add]

theorem shiftRight_pgx_lt (hx : x < 2048) : x >>> s.pgx < 32 := by
  have hle : 2 ^ 6 ≤ 2 ^ s.pgx := Nat.pow_le_pow_right Nat.two_pos s.pgx_ge
  rw [Nat.shiftRight_eq_div_pow]
  exact Nat.div_lt_of_lt_mul (Nat.lt_of_lt_of_le hx (Nat.mul_le_mul_right 32 hle))

theorem rowAddress_eq (hx : x < 2048) (h : x < 4096) :
    s.rowAddress x y bp bw h =
      (((bp / 32 + s.pageNumber 0 y bw) % 512 + x >>> s.pgx) * 32 + bp % 32) * s.cells +
        s.place x y := by
  have hapart : (s.place x y : Int) + s.place 0 (s.like y) =
      s.place 0 y + s.place x (s.like y) := by exact_mod_cast s.place_apart
  have hlt : x >>> s.pgx < 512 := Nat.lt_trans (shiftRight_pgx_lt hx) (by decide)
  have hx0 : 0 >>> s.pgx = 0 := Nat.zero_shiftRight _
  rw [rowAddress, rowOffset, get_ofFn]
  simp only [pixelAddress_eq, pageNumber_like, hx0, Nat.mod_eq_of_lt hx, Nat.zero_div,
    Nat.zero_add, Nat.zero_mod, Nat.zero_mul, Nat.add_zero, Nat.mod_eq_of_lt hlt]
  push_cast
  linear_combination hapart.symm

/-- The row offsets differ from the address in the page number alone, which they do not reduce. -/
theorem rowAddress_add (hx : x < 2048) (h : x < 4096) :
    s.rowAddress x y bp bw h + (bp / 32 + s.pageNumber 0 y bw) / 512 * s.memoryCells =
      s.pixelAddressOrg x y bp bw := by
  have hpage : bp + 32 * s.pageNumber x y bw =
      ((bp / 32 + s.pageNumber 0 y bw) % 512 + x >>> s.pgx) * 32 + bp % 32 +
        (bp / 32 + s.pageNumber 0 y bw) / 512 * 16384 := by
    rw [pageNumber, pageNumber, Nat.zero_shiftRight]
    omega
  rw [rowAddress_eq hx, pixelAddressOrg_eq, hpage, memoryCells, MAX_BLOCKS]
  push_cast
  ring

theorem rowAddress_nonneg (hx : x < 2048) (h : x < 4096) : 0 ≤ s.rowAddress x y bp bw h := by
  rw [rowAddress_eq hx]
  exact Int.natCast_nonneg _

theorem rowAddress_lt (hx : x < 2048) (h : x < 4096) :
    s.rowAddress x y bp bw h < 2 * s.memoryCells := by
  have hplace : s.place x y < 32 * s.cells := place_lt
  have hpage : ((bp / 32 + s.pageNumber 0 y bw) % 512 + x >>> s.pgx) * 32 + bp % 32 ≤
      17407 := by
    have hxq : x >>> s.pgx < 32 := shiftRight_pgx_lt hx
    omega
  have hcells := Nat.mul_le_mul_right s.cells hpage
  have hlt : (((bp / 32 + s.pageNumber 0 y bw) % 512 + x >>> s.pgx) * 32 + bp % 32) * s.cells +
      s.place x y < 2 * s.memoryCells := by
    rw [memoryCells, MAX_BLOCKS]
    omega
  rw [rowAddress_eq hx]
  exact_mod_cast hlt

theorem shiftRight_clear3 {k : Nat} (n : Nat) (h : 3 ≤ k) : ((n / 8) <<< 3) >>> k = n >>> k := by
  obtain ⟨k, rfl⟩ := Nat.exists_eq_add_of_le h
  rw [Nat.shiftRight_add, Nat.shiftLeft_shiftRight, Nat.shiftRight_add n 3 k,
    Nat.shiftRight_eq_div_pow n 3]

/-- The block tables give the block of a pixel, with what a `short` cannot hold left out. -/
theorem blockNumber_apart :
    (s.blockNumber 0 ((y / 8) <<< 3) bp bw : Int) +
        (s.blockNumber ((x / 8) <<< 3) 0 0 32 - s.blockNumber 0 0 0 32) =
      s.blockNumber x y bp bw := by
  have hpgx : 3 ≤ s.pgx := Nat.le_trans (by decide) s.pgx_ge
  have hpgy : 3 ≤ s.pgy := Nat.le_trans (by decide) s.pgy_ge
  have h := s.blocks_apart _ (Nat.mod_lt (y >>> s.bsy) (Nat.two_pow_pos _)) _
    (Nat.mod_lt (x >>> s.bsx) (Nat.two_pow_pos _))
  rw [Table.get_mod_row, Table.get_mod_row, Table.get_mod_column, Table.get_mod_column] at h
  zify at h
  simp only [blockNumber_eq, pageNumber, block, Nat.zero_shiftRight,
    shiftRight_clear3 x hpgx, shiftRight_clear3 y hpgy, shiftRight_clear3 x s.bsx_ge,
    shiftRight_clear3 y s.bsy_ge]
  push_cast
  linear_combination h.symm

theorem toShort_emod (n : Int) : toShort n % MAX_BLOCKS = n % MAX_BLOCKS := by
  have hdvd : (MAX_BLOCKS : Int) ∣ (65536 : Nat) := by decide
  rw [toShort, ← Int.emod_emod_of_dvd _ hdvd, Int.bmod_emod, Int.emod_emod_of_dvd _ hdvd]

theorem blockOffset_get (h : x / 8 < 256) :
    s.blockOffset.get ⟨x / 8, h⟩ =
      toShort (s.blockNumber ((x / 8) <<< 3) 0 0 32 - s.blockNumber 0 0 0 32) := by
  rw [blockOffset, get_ofFn]

theorem blockAddress (h : x / 8 < 256) :
    (toShort (s.blockNumber 0 ((y / 8) <<< 3) bp bw) + s.blockOffset.get ⟨x / 8, h⟩) % MAX_BLOCKS =
      (s.blockNumber x y bp bw : Int) % MAX_BLOCKS := by
  rw [blockOffset_get, Int.add_emod, toShort_emod, toShort_emod, ← Int.add_emod,
    blockNumber_apart]

theorem place_inj {x' y' : Nat} (h : s.place x y = s.place x' y') :
    x % 2 ^ s.pgx = x' % 2 ^ s.pgx ∧ y % 2 ^ s.pgy = y' % 2 ^ s.pgy := by
  obtain ⟨hblock, hcolumn⟩ := digits_inj column_lt column_lt h
  obtain ⟨hyb, hxb⟩ := Table.get_inj s.blocks_nodup hblock
  obtain ⟨hyc, hxc⟩ := Table.get_inj s.columns_nodup hcolumn
  exact ⟨mod_eq_of_parts s.bsx_le hxb hxc, mod_eq_of_parts s.bsy_le hyb hyc⟩

theorem pixelAddressOrg_inj {x' y' : Nat} (hx : x >>> s.pgx < bw >>> (s.pgx - 6))
    (hx' : x' >>> s.pgx < bw >>> (s.pgx - 6))
    (h : s.pixelAddressOrg x y bp bw = s.pixelAddressOrg x' y' bp bw) : x = x' ∧ y = y' := by
  have hsplit : s.pageNumber x y bw * (32 * s.cells) + s.place x y =
      s.pageNumber x' y' bw * (32 * s.cells) + s.place x' y' := by
    rw [pixelAddressOrg_eq, pixelAddressOrg_eq] at h
    linarith
  obtain ⟨hpage, hplace⟩ := digits_inj place_lt place_lt hsplit
  obtain ⟨hyq, hxq⟩ := digits_inj hx hx' hpage
  obtain ⟨hxr, hyr⟩ := place_inj hplace
  exact ⟨eq_of_div_mod hxq hxr, eq_of_div_mod hyq hyr⟩

/-- How many pixels there are in a row of pages. -/
def width (s : Swizzle) (bw : Nat) : Nat := 2 ^ s.pgx * (bw >>> (s.pgx - 6))

theorem lt_width_iff : x < s.width bw ↔ x >>> s.pgx < bw >>> (s.pgx - 6) := by
  rw [width, Nat.mul_comm, Nat.shiftRight_eq_div_pow x, Nat.div_lt_iff_lt_mul (Nat.two_pow_pos _)]

/-- Before the end of the 4 MiB that begin at the base. -/
def Within (s : Swizzle) (x y bp bw : Nat) : Prop :=
  s.pixelAddressOrg x y bp bw < bp * s.cells + s.memoryCells

theorem base_le : bp * s.cells ≤ s.pixelAddressOrg x y bp bw := by
  rw [pixelAddressOrg_eq, Nat.add_mul, Nat.add_assoc]
  exact Nat.le_add_right _ _

/-- Numbers of one window as long as the modulus are told apart by their remainders. -/
theorem eq_of_window {a n n' d : Nat} (hn : a ≤ n) (hn' : a ≤ n') (hlt : n < a + d)
    (hlt' : n' < a + d) (h : n % d = n' % d) : n = n' := by
  obtain ⟨k, rfl⟩ := Nat.exists_eq_add_of_le hn
  obtain ⟨k', rfl⟩ := Nat.exists_eq_add_of_le hn'
  have hmod : k ≡ k' [MOD d] := Nat.ModEq.add_left_cancel' a h
  rw [Nat.ModEq.eq_of_lt_of_lt hmod (by omega) (by omega)]

theorem cell_inj {x' y' : Nat} (hx : x < s.width bw) (hx' : x' < s.width bw)
    (hin : s.Within x y bp bw) (hin' : s.Within x' y' bp bw)
    (h : s.pixelAddress x y bp bw % s.memoryCells = s.pixelAddress x' y' bp bw % s.memoryCells) :
    x = x' ∧ y = y' := by
  rw [pixelAddress_mod, pixelAddress_mod] at h
  exact pixelAddressOrg_inj (lt_width_iff.mp hx) (lt_width_iff.mp hx')
    (eq_of_window base_le base_le hin hin' h)

end Swizzle

end OmegaRed.GSdx
