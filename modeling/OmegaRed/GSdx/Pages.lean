import OmegaRed.GSdx.LocalMemory
import OmegaRed.Lib.Grid
import OmegaRed.Lib.Traces

/-! The pages that a rectangle of a buffer touches. -/

namespace OmegaRed.GSdx

open OmegaRed.Lib Grid

structure GSVector2i where
  x : Nat
  y : Nat
  deriving DecidableEq

structure GSVector4i where
  left : Nat
  top : Nat
  right : Nat
  bottom : Nat
  deriving DecidableEq

/-- A rectangle of a draw, of a transfer (`DSAX + RRW`) or of a texture (`1 << TW`). -/
structure Rect extends GSVector4i where
  left_le : left ≤ right
  top_le : top ≤ bottom
  right_le : right ≤ 2 ^ 15
  bottom_le : bottom ≤ 2 ^ 15

/-- The size of a block. -/
def GS_PSM.bs : GS_PSM → GSVector2i
  | PSGPU24 | PSMCT16 | PSMCT16S | PSMZ16 | PSMZ16S => ⟨16, 8⟩
  | PSMT8 => ⟨16, 16⟩
  | PSMT4 => ⟨32, 16⟩
  | _ => ⟨8, 8⟩

/-- The size of a page. -/
def GS_PSM.pgs : GS_PSM → GSVector2i
  | PSGPU24 | PSMCT16 | PSMCT16S | PSMZ16 | PSMZ16S => ⟨64, 64⟩
  | PSMT8 => ⟨128, 64⟩
  | PSMT4 => ⟨128, 128⟩
  | _ => ⟨64, 32⟩

namespace GSVector4i

/-- `ralign<Align_Outside>` -/
def ralign (r : GSVector4i) (bs : GSVector2i) : GSVector4i :=
  ⟨alignDown bs.x r.left, alignDown bs.y r.top, alignUp bs.x r.right, alignUp bs.y r.bottom⟩

def width (r : GSVector4i) : Int := r.right - r.left

def height (r : GSVector4i) : Int := r.bottom - r.top

def isEmpty (r : GSVector4i) : Prop := r.right ≤ r.left ∨ r.bottom ≤ r.top

def Contains (r : GSVector4i) (x y : Nat) : Prop :=
  (r.left ≤ x ∧ x < r.right) ∧ r.top ≤ y ∧ y < r.bottom

end GSVector4i

/-- `tmp` and `pages`, a bit for each page. -/
abbrev PageBits := Vector (BitVec 32) 16

namespace PageBits

def zero : PageBits := .replicate 16 0

/-- `(row & col) != 0` -/
def test (tmp : PageBits) (n : Fin 512) : Bool :=
  tmp.get ⟨n / 32, Nat.div_lt_of_lt_mul n.isLt⟩ &&& 1#32 <<< (n.val % 32) != 0

/-- `row |= col` -/
def set (tmp : PageBits) (n : Fin 512) : PageBits :=
  Vector.set tmp (n / 32)
    (tmp.get ⟨n / 32, Nat.div_lt_of_lt_mul n.isLt⟩ ||| 1#32 <<< (n.val % 32))
    (Nat.div_lt_of_lt_mul n.isLt)

end PageBits

/-- The set of pages in `tmp`, and the list of them in the order they were found. -/
structure Found where
  tmp : PageBits
  pages : List Nat

def Found.put (s : Found) (n : Fin 512) : Found :=
  if s.tmp.test n then s else ⟨s.tmp.set n, s.pages ++ [n.val]⟩

def EOP : Nat := 0xffffffff

namespace GSOffset

variable (o : GSOffset)

/-- `((base + block.col[x]) >> 5) % MAX_PAGES` -/
def pageOf (base col : Int) : Fin 512 :=
  ⟨((base + col) % 2 ^ 32).toNat >>> 5 % 512, Nat.mod_lt _ (by decide)⟩

/-- The loops over the blocks of a rectangle. -/
def forBlocks {σ : Type} (f : σ → Fin 512 → σ) (r : GSVector4i) (bs : GSVector2i) (s : σ) :
    Option σ :=
  (steps (r.top / 8) (r.bottom / 8) (bs.y / 8)).foldlM
    (fun s y => o.blockRow[y]?.bind fun base =>
      (steps (r.left / 8) (r.right / 8) (bs.x / 8)).foldlM
        (fun s x => o.blockCol[x]?.bind fun col => some (f s (pageOf base col))) s) s

/-- Pages of a buffer that begins with a page are looked at once, else every block is. -/
def stepSize (bp : Fin 16384) (psm : Fin 64) : GSVector2i :=
  if bp.val % 32 = 0 then (GS_PSM.ofCode psm).pgs else (GS_PSM.ofCode psm).bs

/-- `GetPages`: what it writes, in the order of the array. -/
def GetPages (bp : Fin 16384) (psm : Fin 64) (rect : GSVector4i) : Option (List Nat) :=
  let bs := stepSize bp psm
  (o.forBlocks Found.put (rect.ralign bs) bs ⟨.zero, []⟩).map (·.pages ++ [EOP])

/-- The length of the array of `GetPages` that it allocates. -/
def limit (bp : Fin 16384) (psm : Fin 64) (rect : GSVector4i) : Int :=
  let r := rect.ralign (stepSize bp psm)
  min ((r.width * r.height) >>> (if bp.val % 32 ≠ 0 then (6 : Nat) else 11) + 2) MAX_PAGES + 1

/-- `GetPagesAsBits` of a rectangle. -/
def GetPagesAsBits (bp : Fin 16384) (psm : Fin 64) (rect : GSVector4i) : Option PageBits :=
  let bs := stepSize bp psm
  o.forBlocks PageBits.set (rect.ralign bs) bs .zero

end GSOffset

/-- The two fields of `TEX0` that the pages of a texture depend on. -/
structure GIFRegTEX0 where
  u64 : BitVec 64

namespace GIFRegTEX0

variable (TEX0 : GIFRegTEX0)

def TW : BitVec 4 := TEX0.u64.extractLsb' 26 4

def TH : BitVec 4 := TEX0.u64.extractLsb' 30 4

/-- `(TEX0.u64 >> 26) & 0xFF` -/
def hash_key : BitVec 8 := (TEX0.u64 >>> 26).setWidth 8

/-- `GSVector4i(0, 0, 1 << TEX0.TW, 1 << TEX0.TH)` -/
def rect : GSVector4i := ⟨0, 0, 2 ^ TEX0.TW.toNat, 2 ^ TEX0.TH.toNat⟩

end GIFRegTEX0

/-- `pages_as_bit` -/
abbrev PagesAsBit := BitVec 8 → Option PageBits

/-- `GetPagesAsBits` of a texture. -/
def GSOffset.GetPagesAsBitsTEX0 (o : GSOffset) (bp : Fin 16384) (psm : Fin 64)
    (pages_as_bit : PagesAsBit) (TEX0 : GIFRegTEX0) : Option (PagesAsBit × PageBits) :=
  match pages_as_bit TEX0.hash_key with
  | some pages => some (pages_as_bit, pages)
  | none => (o.GetPagesAsBits bp psm TEX0.rect).map fun pages =>
      (Function.update pages_as_bit TEX0.hash_key (some pages), pages)

namespace PageBits

variable (tmp : PageBits) (n m : Fin 512)

theorem div_lt : n.val / 32 < 16 := Nat.div_lt_of_lt_mul n.isLt

theorem mod_lt : n.val % 32 < 32 := Nat.mod_lt _ (by decide)

theorem test_eq : tmp.test n = (tmp.get ⟨n / 32, div_lt n⟩).getLsbD (n % 32) := by
  have hone : BitVec.twoPow 32 (n.val % 32) ≠ 0#32 := by
    intro h
    have hbit := congrArg (·.getLsbD (n.val % 32)) h
    rw [BitVec.getLsbD_twoPow, BitVec.getLsbD_zero, decide_eq_true (mod_lt n)] at hbit
    simp at hbit
  rw [test, ← BitVec.twoPow, BitVec.and_twoPow]
  split
  · rename_i h
    rw [h]
    exact bne_iff_ne.2 hone
  · rename_i h
    rw [Bool.eq_false_of_not_eq_true h]
    rfl

@[simp] theorem test_zero : zero.test n = false := by
  have hget : zero.get ⟨n / 32, div_lt n⟩ = 0 := Vector.getElem_replicate (div_lt n)
  rw [test_eq, hget]
  exact BitVec.getLsbD_zero

@[simp] theorem test_set : (tmp.set n).test m = (decide (n = m) || tmp.test m) := by
  have hget : (tmp.set n).get ⟨m / 32, div_lt m⟩ = if n.val / 32 = m / 32 then
      tmp.get ⟨n / 32, div_lt n⟩ ||| 1#32 <<< (n.val % 32) else tmp.get ⟨m / 32, div_lt m⟩ :=
    Vector.getElem_set (div_lt n) (div_lt m)
  rw [test_eq, test_eq, hget, ← BitVec.twoPow]
  split
  · rename_i hdiv
    simp only [hdiv, BitVec.getLsbD_or, BitVec.getLsbD_twoPow, mod_lt, decide_true, Bool.true_and]
    rw [Bool.or_comm]
    congr 1
    rw [decide_eq_decide, Fin.ext_iff]
    omega
  · rename_i hdiv
    have hne : n ≠ m := fun h => hdiv (by rw [h])
    rw [decide_eq_false hne, Bool.false_or]

theorem test_foldl_set (ns : List (Fin 512)) :
    (ns.foldl set tmp).test m = (decide (m ∈ ns) || tmp.test m) := by
  induction ns generalizing tmp with
  | nil => simp
  | cons n ns ih =>
    rw [List.foldl_cons, ih, test_set, ← Bool.or_assoc, ← Bool.decide_or]
    congr 1
    rw [decide_eq_decide, List.mem_cons, eq_comm (a := n), or_comm]

end PageBits

namespace Found

/-- The list has the pages of the set, each once. -/
structure Inv (s : Found) (ns : List (Fin 512)) : Prop where
  nodup : s.pages.Nodup
  mem : ∀ n : Nat, n ∈ s.pages ↔ ∃ m ∈ ns, m.val = n
  test : ∀ m : Fin 512, s.tmp.test m = true ↔ m ∈ ns

theorem Inv.put {s : Found} {ns : List (Fin 512)} (h : s.Inv ns) (n : Fin 512) :
    (s.put n).Inv (ns ++ [n]) := by
  have hmem (m : Fin 512) : m ∈ ns ++ [n] ↔ m ∈ ns ∨ m = n := by
    rw [List.mem_append, List.mem_singleton]
  rw [Found.put]
  split
  · rename_i hin
    have hsame (m : Fin 512) : m ∈ ns ++ [n] ↔ m ∈ ns := by
      rw [hmem]
      exact or_iff_left_of_imp fun heq => heq ▸ (h.test n).1 hin
    exact ⟨h.nodup, by simpa only [hsame] using h.mem, by simpa only [hsame] using h.test⟩
  · rename_i hout
    have hnew : n.val ∉ s.pages := by
      intro hn
      obtain ⟨m, hm, heq⟩ := (h.mem n).1 hn
      exact hout ((h.test n).2 (Fin.ext heq ▸ hm))
    refine ⟨?_, fun k => ?_, fun m => ?_⟩
    · exact List.nodup_append.2 ⟨h.nodup, List.nodup_singleton _, fun a ha b hb heq => by
        rw [List.mem_singleton] at hb
        exact hnew (hb ▸ heq ▸ ha)⟩
    · rw [List.mem_append, h.mem, List.mem_singleton]
      simp only [hmem, or_and_right, exists_or, exists_eq_left]
      rw [eq_comm (a := k)]
    · rw [PageBits.test_set, Bool.or_eq_true, decide_eq_true_eq, h.test, hmem, or_comm, eq_comm]

theorem inv_zero : (⟨.zero, []⟩ : Found).Inv [] :=
  ⟨List.nodup_nil, fun n => by simp, fun m => by simp⟩

theorem Inv.foldl {s : Found} {ns : List (Fin 512)} (h : s.Inv ns) (ms : List (Fin 512)) :
    (ms.foldl Found.put s).Inv (ns ++ ms) := by
  induction ms generalizing s ns with
  | nil =>
    rw [List.append_nil]
    exact h
  | cons m ms ih =>
    rw [List.append_cons]
    exact ih (h.put m)

end Found

/-- The page of the block with a pixel. -/
def page (psm : Fin 64) (bp : Fin 16384) (bw : Fin 64) (x y : Nat) : Fin 512 :=
  ⟨(m_psm psm).bn x y bp bw / 32 % 512, Nat.mod_lt _ (by decide)⟩

theorem page_val (psm : Fin 64) (bp : Fin 16384) (bw : Fin 64) (x y : Nat) :
    (page psm bp bw x y).val = (m_psm psm).bn x y bp bw / 32 % 512 := rfl

theorem pageOf_eq {base col : Int} {n : Nat} (h : (base + col) % 16384 = (n : Int) % 16384) :
    (GSOffset.pageOf base col).val = n / 32 % 512 := by
  have hval : (GSOffset.pageOf base col).val = ((base + col) % 4294967296).toNat / 32 % 512 :=
    congrArg (· % 512) (Nat.shiftRight_eq_div_pow _ 5)
  rw [hval]
  omega

section Walk

variable {psm : Fin 64} {bp : Fin 16384} {bw : Fin 64} {σ : Type} {f : σ → Fin 512 → σ} {s : σ}
  {r : GSVector4i} {bs : GSVector2i}

variable (psm bp bw) in
theorem pageOf_blocks {x y : Nat} (hx : x < 256) (hy : y < 256) :
    (getOffset bp bw psm).blockRow[y]? =
        some (toShort ((m_psm psm).bn 0 (y <<< 3) bp bw)) ∧
      ∃ col, (getOffset bp bw psm).blockCol[x]? = some col ∧
        GSOffset.pageOf (toShort ((m_psm psm).bn 0 (y <<< 3) bp bw)) col =
          page psm bp bw (8 * x) (8 * y) := by
  have hx8 : 8 * x / 8 = x := Nat.mul_div_cancel_left x (by decide)
  have hy8 : 8 * y / 8 = y := Nat.mul_div_cancel_left y (by decide)
  have hcol : (getOffset bp bw psm).blockCol[x]? =
      some ((m_psm psm).blockOffset.get ⟨8 * x / 8, by omega⟩) := by
    simp only [hx8]
    exact Vector.getElem?_eq_getElem hx
  refine ⟨?_, _, hcol, ?_⟩
  · rw [getOffset, Vector.getElem?_ofFn, dif_pos hy]
  · have haddress : (toShort ((GS_PSM.ofCode psm).swizzle.blockNumber 0 ((8 * y / 8) <<< 3) bp bw) +
        (GS_PSM.ofCode psm).swizzle.blockOffset.get ⟨8 * x / 8, by omega⟩) % MAX_BLOCKS =
          ((GS_PSM.ofCode psm).swizzle.blockNumber (8 * x) (8 * y) bp bw : Int) % MAX_BLOCKS :=
      Swizzle.blockAddress (by omega)
    rw [hy8] at haddress
    apply Fin.ext
    rw [m_psm, GS_PSM.bn_eq, GS_PSM.blockOffset_eq, page_val, m_psm, GS_PSM.bn_eq]
    exact pageOf_eq haddress

/-- The pages of the blocks that the loops look at. -/
def visited (psm : Fin 64) (bp : Fin 16384) (bw : Fin 64) (r : GSVector4i) (bs : GSVector2i) :
    List (Fin 512) :=
  (steps (r.top / 8) (r.bottom / 8) (bs.y / 8)).flatMap fun y =>
    (steps (r.left / 8) (r.right / 8) (bs.x / 8)).map fun x => page psm bp bw (8 * x) (8 * y)

theorem forBlocks_eq_some
    (hrows : ∀ y ∈ steps (r.top / 8) (r.bottom / 8) (bs.y / 8), y < 256 ∧
      ∀ x ∈ steps (r.left / 8) (r.right / 8) (bs.x / 8), x < 256) :
    (getOffset bp bw psm).forBlocks f r bs s = some ((visited psm bp bw r bs).foldl f s) := by
  rw [visited, List.foldl_flatMap]
  apply foldlM_eq_some
  intro y hy s
  obtain ⟨hlt, hcols⟩ := hrows y hy
  rw [(pageOf_blocks psm bp bw (x := 0) (by decide) hlt).1, Option.bind_some, List.foldl_map]
  apply foldlM_eq_some
  intro x hx s
  obtain ⟨-, col, hcol, hpage⟩ := pageOf_blocks psm bp bw (hcols x hx) hlt
  rw [hcol, Option.bind_some, hpage]

theorem forBlocks_row {y : Nat} (hy : y ∈ steps (r.top / 8) (r.bottom / 8) (bs.y / 8))
    (hlt : 256 ≤ y) : (getOffset bp bw psm).forBlocks f r bs s = none := by
  apply foldlM_eq_none hy
  intro s
  rw [Vector.getElem?_eq_none hlt, Option.bind_none]

theorem forBlocks_col {x y : Nat} (hy : y ∈ steps (r.top / 8) (r.bottom / 8) (bs.y / 8))
    (hx : x ∈ steps (r.left / 8) (r.right / 8) (bs.x / 8)) (hlt : 256 ≤ x) :
    (getOffset bp bw psm).forBlocks f r bs s = none := by
  apply foldlM_eq_none hy
  intro s
  cases (getOffset bp bw psm).blockRow[y]? with
  | none => rfl
  | some base =>
    rw [Option.bind_some]
    apply foldlM_eq_none hx
    intro s
    rw [Vector.getElem?_eq_none hlt, Option.bind_none]

end Walk

theorem shiftRight_cell {k n : Nat} (h : k ≤ n) (x : Nat) : (2 ^ k * (x / 2 ^ k)) >>> n = x >>> n := by
  obtain ⟨m, rfl⟩ := Nat.exists_eq_add_of_le h
  rw [Nat.shiftRight_add, Nat.shiftRight_add, Nat.shiftRight_eq_div_pow _ k,
    Nat.mul_div_cancel_left _ (Nat.two_pow_pos k), Nat.shiftRight_eq_div_pow x k]

namespace GS_PSM

variable (p : GS_PSM)

theorem bs_eq : p.bs = ⟨2 ^ p.swizzle.bsx, 2 ^ p.swizzle.bsy⟩ := by cases p <;> rfl

theorem pgs_eq : p.pgs = ⟨2 ^ p.swizzle.pgx, 2 ^ p.swizzle.pgy⟩ := by cases p <;> rfl

end GS_PSM

/-- What the sizes of pages and blocks have in common. -/
structure Steps (bs : GSVector2i) (kx ky : Nat) : Prop where
  eq : bs = ⟨8 * kx, 8 * ky⟩
  kx_pos : 0 < kx
  ky_pos : 0 < ky
  x_dvd : 8 * kx ∣ 2048
  y_dvd : 8 * ky ∣ 2048

theorem exists_steps (bp : Fin 16384) (psm : Fin 64) :
    ∃ kx ky, Steps (GSOffset.stepSize bp psm) kx ky := by
  rw [GSOffset.stepSize]
  generalize GS_PSM.ofCode psm = p
  split
  · refine ⟨p.pgs.x / 8, p.pgs.y / 8, ?_⟩
    cases p <;> exact ⟨rfl, by decide, by decide, by decide, by decide⟩
  · refine ⟨p.bs.x / 8, p.bs.y / 8, ?_⟩
    cases p <;> exact ⟨rfl, by decide, by decide, by decide, by decide⟩

theorem bs_dvd (bp : Fin 16384) (psm : Fin 64) :
    (GS_PSM.ofCode psm).bs.x ∣ (GSOffset.stepSize bp psm).x ∧
      (GS_PSM.ofCode psm).bs.y ∣ (GSOffset.stepSize bp psm).y := by
  rw [GSOffset.stepSize]
  generalize GS_PSM.ofCode psm = p
  split
  · cases p <;> decide
  · exact ⟨dvd_refl _, dvd_refl _⟩

section Cells

variable {psm : Fin 64} {bp : Fin 16384} {bw : Fin 64} {rect : GSVector4i}

theorem page_cell (x y : Nat) :
    page psm bp bw ((GSOffset.stepSize bp psm).x * (x / (GSOffset.stepSize bp psm).x))
      ((GSOffset.stepSize bp psm).y * (y / (GSOffset.stepSize bp psm).y)) =
        page psm bp bw x y := by
  apply Fin.ext
  simp only [page_val, m_psm, GS_PSM.bn_eq, GSOffset.stepSize]
  generalize GS_PSM.ofCode psm = p
  split
  · rename_i hbp
    have hpage (x y : Nat) : p.swizzle.blockNumber x y bp bw / 32 =
        bp / 32 + p.swizzle.pageNumber x y bw := by
      have hblock : p.swizzle.block x y < 32 := Swizzle.block_lt
      rw [Swizzle.blockNumber_eq]
      omega
    rw [hpage, hpage, GS_PSM.pgs_eq, Swizzle.pageNumber, Swizzle.pageNumber,
      shiftRight_cell (Nat.le_refl _), shiftRight_cell (Nat.le_refl _)]
  · rw [GS_PSM.bs_eq, Swizzle.blockNumber_eq, Swizzle.blockNumber_eq, Swizzle.pageNumber,
      Swizzle.pageNumber, Swizzle.block, Swizzle.block, shiftRight_cell (Nat.le_refl _),
      shiftRight_cell (Nat.le_refl _), shiftRight_cell p.swizzle.bsx_le,
      shiftRight_cell p.swizzle.bsy_le]

theorem visited_eq : visited psm bp bw (rect.ralign (GSOffset.stepSize bp psm))
    (GSOffset.stepSize bp psm) =
    let bs := GSOffset.stepSize bp psm
    (List.range' (rect.top / bs.y) (ceil bs.y rect.bottom - rect.top / bs.y)).flatMap fun qy =>
      (List.range' (rect.left / bs.x) (ceil bs.x rect.right - rect.left / bs.x)).map fun qx =>
        page psm bp bw (bs.x * qx) (bs.y * qy) := by
  obtain ⟨kx, ky, h⟩ := exists_steps bp psm
  generalize GSOffset.stepSize bp psm = bs at h
  obtain rfl := h.eq
  simp only [visited, GSVector4i.ralign, steps_div (Nat.succ_pos 7) h.ky_pos,
    steps_div (Nat.succ_pos 7) h.kx_pos, List.flatMap_map, List.map_map, Function.comp_def,
    Nat.mul_assoc]

theorem mem_visited_iff (n : Fin 512) :
    n ∈ visited psm bp bw (rect.ralign (GSOffset.stepSize bp psm)) (GSOffset.stepSize bp psm) ↔
      let bs := GSOffset.stepSize bp psm
      ∃ qx qy, (rect.left / bs.x ≤ qx ∧ qx < ceil bs.x rect.right) ∧
        (rect.top / bs.y ≤ qy ∧ qy < ceil bs.y rect.bottom) ∧
          page psm bp bw (bs.x * qx) (bs.y * qy) = n := by
  rw [visited_eq]
  simp only [List.mem_flatMap, List.mem_map, mem_cells_iff]
  constructor
  · rintro ⟨qy, hqy, qx, hqx, hn⟩
    exact ⟨qx, qy, hqx, hqy, hn⟩
  · rintro ⟨qx, qy, hqx, hqy, hn⟩
    exact ⟨qy, hqy, qx, hqx, hn⟩

/-- The rectangle, widened to whole blocks, has a block in the page. -/
def Covered (psm : Fin 64) (bp : Fin 16384) (bw : Fin 64) (rect : GSVector4i) (n : Nat) : Prop :=
  ∃ x y, (rect.ralign (GS_PSM.ofCode psm).bs).Contains x y ∧ (page psm bp bw x y).val = n

variable (psm bp) in
theorem step_pos : (0 < (GS_PSM.ofCode psm).bs.x ∧ 0 < (GS_PSM.ofCode psm).bs.y) ∧
    0 < (GSOffset.stepSize bp psm).x ∧ 0 < (GSOffset.stepSize bp psm).y := by
  obtain ⟨kx, ky, h⟩ := exists_steps bp psm
  rw [h.eq, GS_PSM.bs_eq]
  exact ⟨⟨Nat.two_pow_pos _, Nat.two_pow_pos _⟩, Nat.mul_pos (by decide) h.kx_pos,
    Nat.mul_pos (by decide) h.ky_pos⟩

theorem alignUp_le_alignDown_iff {a lo hi : Nat} (ha : 0 < a) :
    alignUp a hi ≤ alignDown a lo ↔ ceil a hi ≤ lo / a := by
  rw [alignUp_eq, alignDown_eq, Nat.mul_le_mul_left_iff ha]

theorem visited_covered (hne : ¬ (rect.ralign (GS_PSM.ofCode psm).bs).isEmpty) (n : Nat) :
    (∃ m ∈ visited psm bp bw (rect.ralign (GSOffset.stepSize bp psm)) (GSOffset.stepSize bp psm),
      m.val = n) ↔ Covered psm bp bw rect n := by
  obtain ⟨⟨hbx, hby⟩, hx, hy⟩ := step_pos psm bp
  obtain ⟨hdvdx, hdvdy⟩ := bs_dvd bp psm
  obtain ⟨hnex, hney⟩ := not_or.1 hne
  have hcol (q : Nat) := touches_iff (q := q) hbx hx hdvdx
    (Nat.lt_of_not_le fun h => hnex ((alignUp_le_alignDown_iff hbx).2 h))
  have hrow (q : Nat) := touches_iff (q := q) hby hy hdvdy
    (Nat.lt_of_not_le fun h => hney ((alignUp_le_alignDown_iff hby).2 h))
  constructor
  · rintro ⟨m, hm, rfl⟩
    obtain ⟨qx, qy, hqx, hqy, rfl⟩ := (mem_visited_iff m).1 hm
    obtain ⟨x, hxl, hxr, rfl⟩ := (hcol qx).1 hqx
    obtain ⟨y, hyl, hyr, rfl⟩ := (hrow qy).1 hqy
    exact ⟨x, y, ⟨⟨hxl, hxr⟩, hyl, hyr⟩, congrArg Fin.val (page_cell x y).symm⟩
  · rintro ⟨x, y, ⟨⟨hxl, hxr⟩, hyl, hyr⟩, rfl⟩
    refine ⟨_, (mem_visited_iff _).2 ⟨_, _, (hcol _).2 ⟨x, hxl, hxr, rfl⟩,
      (hrow _).2 ⟨y, hyl, hyr, rfl⟩, page_cell x y⟩, rfl⟩

theorem not_covered (hempty : (rect.ralign (GS_PSM.ofCode psm).bs).isEmpty) (n : Nat) :
    ¬ Covered psm bp bw rect n := by
  rintro ⟨x, y, ⟨⟨hxl, hxr⟩, hyl, hyr⟩, -⟩
  rcases hempty with h | h
  · omega
  · omega

theorem mem_steps_iff {k lo hi x : Nat} (hk : 0 < k) :
    x ∈ steps (alignDown (8 * k) lo / 8) (alignUp (8 * k) hi / 8) (8 * k / 8) ↔
      ∃ q, (lo / (8 * k) ≤ q ∧ q < ceil (8 * k) hi) ∧ k * q = x := by
  rw [steps_div (by decide) hk, List.mem_map]
  simp only [mem_cells_iff]

/-- The indices are those of the tables as long as the rectangle is within 2048 pixels. -/
theorem steps_lt {k lo hi : Nat} (hk : 0 < k) (hle : hi ≤ 2048) :
    ∀ x ∈ steps (alignDown (8 * k) lo / 8) (alignUp (8 * k) hi / 8) (8 * k / 8), x < 256 := by
  intro x hx
  obtain ⟨q, ⟨-, hq⟩, rfl⟩ := (mem_steps_iff hk).1 hx
  have hlt := (lt_ceil_iff (Nat.mul_pos (by decide) hk)).1 hq
  rw [Nat.mul_assoc] at hlt
  omega

theorem exists_steps_ge {k lo hi : Nat} (hk : 0 < k) (hdvd : 8 * k ∣ 2048) (hlt : 2048 < hi)
    (hne : alignDown (8 * k) lo < alignUp (8 * k) hi) :
    ∃ x ∈ steps (alignDown (8 * k) lo / 8) (alignUp (8 * k) hi / 8) (8 * k / 8), 256 ≤ x := by
  have hpos : 0 < 8 * k := Nat.mul_pos (by decide) hk
  have hcells : lo / (8 * k) < ceil (8 * k) hi :=
    Nat.lt_of_not_le fun h => Nat.not_le.2 hne ((alignUp_le_alignDown_iff hpos).2 h)
  have hend : 8 * k * (2048 / (8 * k)) = 2048 := Nat.mul_div_cancel' hdvd
  have hq : 2048 / (8 * k) < ceil (8 * k) hi := (lt_ceil_iff hpos).2 (by rw [hend]; exact hlt)
  refine ⟨k * max (lo / (8 * k)) (2048 / (8 * k)), (mem_steps_iff hk).2
    ⟨_, ⟨Nat.le_max_left .., Nat.max_lt.2 ⟨hcells, hq⟩⟩, rfl⟩, ?_⟩
  have hle := Nat.mul_le_mul_left k (Nat.le_max_right (lo / (8 * k)) (2048 / (8 * k)))
  rw [Nat.mul_assoc] at hend
  omega

theorem steps_eq_nil {k lo hi : Nat} (hk : 0 < k) (hle : alignUp (8 * k) hi ≤ alignDown (8 * k) lo) :
    steps (alignDown (8 * k) lo / 8) (alignUp (8 * k) hi / 8) (8 * k / 8) = [] := by
  have hcells := (alignUp_le_alignDown_iff (Nat.mul_pos (by decide) hk)).1 hle
  rw [steps_div (by decide) hk, Nat.sub_eq_zero_of_le hcells]
  rfl

variable (psm bp rect) in
/-- The loops stay within the tables of rows and columns. -/
def InTables : Prop :=
  let r := rect.ralign (GSOffset.stepSize bp psm)
  r.bottom ≤ r.top ∨ rect.bottom ≤ 2048 ∧ (r.right ≤ r.left ∨ rect.right ≤ 2048)

instance : Decidable (InTables psm bp rect) := inferInstanceAs (Decidable (_ ∨ _ ∧ (_ ∨ _)))

variable {σ : Type} {f : σ → Fin 512 → σ} {s : σ}

theorem forBlocks_of_inTables (h : InTables psm bp rect) :
    (getOffset bp bw psm).forBlocks f (rect.ralign (GSOffset.stepSize bp psm))
      (GSOffset.stepSize bp psm) s =
        some ((visited psm bp bw (rect.ralign (GSOffset.stepSize bp psm))
          (GSOffset.stepSize bp psm)).foldl f s) := by
  apply forBlocks_eq_some
  obtain ⟨kx, ky, hstep⟩ := exists_steps bp psm
  rw [InTables] at h
  generalize GSOffset.stepSize bp psm = bs at h hstep ⊢
  obtain rfl := hstep.eq
  intro y hy
  rcases h with hrows | ⟨hbottom, hcols⟩
  · rw [GSVector4i.ralign, steps_eq_nil hstep.ky_pos hrows] at hy
    cases hy
  · refine ⟨steps_lt hstep.ky_pos hbottom y hy, fun x hx => ?_⟩
    rcases hcols with hcols | hright
    · rw [GSVector4i.ralign, steps_eq_nil hstep.kx_pos hcols] at hx
      cases hx
    · exact steps_lt hstep.kx_pos hright x hx

theorem forBlocks_eq_none (h : ¬ InTables psm bp rect) :
    (getOffset bp bw psm).forBlocks f (rect.ralign (GSOffset.stepSize bp psm))
      (GSOffset.stepSize bp psm) s = none := by
  obtain ⟨kx, ky, hstep⟩ := exists_steps bp psm
  rw [InTables] at h
  generalize GSOffset.stepSize bp psm = bs at h hstep ⊢
  obtain rfl := hstep.eq
  obtain ⟨hrows, hrest⟩ := not_or.1 h
  have htop := Nat.lt_of_not_le hrows
  by_cases hbottom : rect.bottom ≤ 2048
  · obtain ⟨hcols, hright⟩ := not_or.1 fun hcols => hrest ⟨hbottom, hcols⟩
    obtain ⟨x, hx, hge⟩ := exists_steps_ge hstep.kx_pos hstep.x_dvd (Nat.lt_of_not_le hright)
      (Nat.lt_of_not_le hcols)
    have hcells : rect.top / (8 * ky) < ceil (8 * ky) rect.bottom :=
      Nat.lt_of_not_le fun hle =>
        hrows ((alignUp_le_alignDown_iff (Nat.mul_pos (by decide) hstep.ky_pos)).2 hle)
    have hy := (mem_steps_iff hstep.ky_pos).2
      ⟨rect.top / (8 * ky), ⟨Nat.le_refl _, hcells⟩, rfl⟩
    exact forBlocks_col hy hx hge
  · obtain ⟨y, hy, hge⟩ := exists_steps_ge hstep.ky_pos hstep.y_dvd (Nat.lt_of_not_le hbottom) htop
    exact forBlocks_row hy hge

theorem isEmpty_of_steps (h : (rect.ralign (GSOffset.stepSize bp psm)).isEmpty) :
    (rect.ralign (GS_PSM.ofCode psm).bs).isEmpty := by
  obtain ⟨⟨hbx, hby⟩, hx, hy⟩ := step_pos psm bp
  obtain ⟨hdvdx, hdvdy⟩ := bs_dvd bp psm
  rcases h with h | h
  · exact .inl ((alignUp_le_alignDown_iff hbx).2
      (ceil_le_of_dvd hbx hx hdvdx ((alignUp_le_alignDown_iff hx).1 h)))
  · exact .inr ((alignUp_le_alignDown_iff hby).2
      (ceil_le_of_dvd hby hy hdvdy ((alignUp_le_alignDown_iff hy).1 h)))

variable (bw) in
theorem exists_visited (h : ¬ (rect.ralign (GSOffset.stepSize bp psm)).isEmpty) :
    ∃ n, n ∈ visited psm bp bw (rect.ralign (GSOffset.stepSize bp psm))
      (GSOffset.stepSize bp psm) := by
  obtain ⟨-, hx, hy⟩ := step_pos psm bp
  obtain ⟨hcols, hrows⟩ := not_or.1 h
  refine ⟨_, (mem_visited_iff _).2 ⟨_, _, ⟨Nat.le_refl _, Nat.lt_of_not_le fun hle => ?_⟩,
    ⟨Nat.le_refl _, Nat.lt_of_not_le fun hle => ?_⟩, rfl⟩⟩
  · exact hcols ((alignUp_le_alignDown_iff hx).2 hle)
  · exact hrows ((alignUp_le_alignDown_iff hy).2 hle)

theorem visited_of_isEmpty (h : (rect.ralign (GSOffset.stepSize bp psm)).isEmpty) (n : Fin 512) :
    n ∉ visited psm bp bw (rect.ralign (GSOffset.stepSize bp psm)) (GSOffset.stepSize bp psm) := by
  obtain ⟨-, hx, hy⟩ := step_pos psm bp
  intro hn
  obtain ⟨qx, qy, ⟨hxl, hxr⟩, ⟨hyl, hyr⟩, -⟩ := (mem_visited_iff n).1 hn
  rcases h with h | h
  · have := (alignUp_le_alignDown_iff hx).1 h
    omega
  · have := (alignUp_le_alignDown_iff hy).1 h
    omega

end Cells

/-- Textures whose pages are looked up one after the other, in a new `GSOffset`. -/
def GSOffset.lookUp (o : GSOffset) (bp : Fin 16384) (psm : Fin 64) (pages_as_bit : PagesAsBit)
    (TEX0 : GIFRegTEX0) : Option PagesAsBit :=
  (o.GetPagesAsBitsTEX0 bp psm pages_as_bit TEX0).map Prod.fst

/-- The list has the pages of the blocks of the rectangle and fits into its array, and the bits are
those of the same pages, also where they are kept for a texture. -/
structure PagesExact (psm : Fin 64) (bp : Fin 16384) (bw : Fin 64) (rect : Rect) : Prop where
  pages : ∃ ps, (getOffset bp bw psm).GetPages bp psm rect.toGSVector4i = some (ps ++ [EOP]) ∧
    ps.Nodup ∧ (∀ n, n ∈ ps ↔ Covered psm bp bw rect.toGSVector4i n) ∧
      ps.length + 1 ≤ MAX_PAGES + 1 ∧
        ((ps.length + 1 : Nat) : Int) ≤ GSOffset.limit bp psm rect.toGSVector4i
  bits : ∃ tmp, (getOffset bp bw psm).GetPagesAsBits bp psm rect.toGSVector4i = some tmp ∧
    ∀ n : Fin 512, tmp.test n = true ↔ Covered psm bp bw rect.toGSVector4i n
  texture : ∀ (textures : List GIFRegTEX0) (pages_as_bit : PagesAsBit),
    Traces.run ((getOffset bp bw psm).lookUp bp psm) (fun _ => none) textures =
      some pages_as_bit →
    ∀ TEX0 : GIFRegTEX0, TEX0.rect = rect.toGSVector4i →
      ((getOffset bp bw psm).GetPagesAsBitsTEX0 bp psm pages_as_bit TEX0).map Prod.snd =
        (getOffset bp bw psm).GetPagesAsBits bp psm rect.toGSVector4i

/-- The rectangle that a key of `pages_as_bit` stands for. -/
def keyRect (key : BitVec 8) : GSVector4i :=
  ⟨0, 0, 2 ^ (key.extractLsb' 0 4).toNat, 2 ^ (key.extractLsb' 4 4).toNat⟩

theorem GIFRegTEX0.rect_eq (TEX0 : GIFRegTEX0) : TEX0.rect = keyRect TEX0.hash_key := by
  have hTW : TEX0.hash_key.extractLsb' 0 4 = TEX0.TW := by
    rw [hash_key, TW]
    ext i hi
    simp only [BitVec.getElem_extractLsb', BitVec.getLsbD_setWidth, BitVec.getLsbD_ushiftRight]
    rw [decide_eq_true (show 0 + i < 8 by omega), Bool.true_and, Nat.zero_add]
  have hTH : TEX0.hash_key.extractLsb' 4 4 = TEX0.TH := by
    rw [hash_key, TH]
    ext i hi
    simp only [BitVec.getElem_extractLsb', BitVec.getLsbD_setWidth, BitVec.getLsbD_ushiftRight]
    rw [decide_eq_true (show 4 + i < 8 by omega), Bool.true_and, ← Nat.add_assoc]
  rw [keyRect, hTW, hTH, rect]

section Texture

variable {o : GSOffset} {bp : Fin 16384} {psm : Fin 64} {pages_as_bit pages_as_bit' : PagesAsBit}

/-- What is kept for a texture are its pages. -/
def Kept (o : GSOffset) (bp : Fin 16384) (psm : Fin 64) (pages_as_bit : PagesAsBit) : Prop :=
  ∀ key tmp, pages_as_bit key = some tmp → o.GetPagesAsBits bp psm (keyRect key) = some tmp

theorem Kept.lookUp (h : Kept o bp psm pages_as_bit) (TEX0 : GIFRegTEX0)
    (hs : o.lookUp bp psm pages_as_bit TEX0 = some pages_as_bit') :
    Kept o bp psm pages_as_bit' := by
  rw [GSOffset.lookUp, GSOffset.GetPagesAsBitsTEX0] at hs
  split at hs
  · cases hs
    exact h
  · obtain ⟨⟨_, tmp⟩, htmp, rfl⟩ := Option.map_eq_some_iff.1 hs
    obtain ⟨_, hpages, heq⟩ := Option.map_eq_some_iff.1 htmp
    cases heq
    intro key tmp hkey
    dsimp only at hkey
    by_cases hsame : key = TEX0.hash_key
    · subst hsame
      rw [Function.update_self] at hkey
      cases hkey
      rwa [← TEX0.rect_eq]
    · rw [Function.update_of_ne hsame] at hkey
      exact h key tmp hkey

theorem Kept.pages (h : Kept o bp psm pages_as_bit) (TEX0 : GIFRegTEX0) :
    (o.GetPagesAsBitsTEX0 bp psm pages_as_bit TEX0).map Prod.snd =
      o.GetPagesAsBits bp psm TEX0.rect := by
  rw [GSOffset.GetPagesAsBitsTEX0]
  split
  · rename_i tmp hkey
    rw [TEX0.rect_eq, h _ _ hkey]
    rfl
  · rw [Option.map_map]
    exact Option.map_id'

theorem kept_run {textures : List GIFRegTEX0}
    (hrun : Traces.run (o.lookUp bp psm) (fun _ => none) textures = some pages_as_bit) :
    Kept o bp psm pages_as_bit := by
  have hmeets : Traces.Meets (o.lookUp bp psm) (fun _ _ => True) (fun _ => none) textures :=
    Traces.Meets.of_mem fun _ _ _ => trivial
  exact Traces.invariant (fun _ TEX0 _ h _ hs => h.lookUp TEX0 hs) hmeets hrun
    fun key tmp hkey => absurd hkey (Option.some_ne_none tmp).symm

end Texture

section Array

variable {psm : Fin 64} {bp : Fin 16384} {bw : Fin 64} {rect : Rect}

theorem visited_length : (visited psm bp bw
    (rect.toGSVector4i.ralign (GSOffset.stepSize bp psm)) (GSOffset.stepSize bp psm)).length =
    let bs := GSOffset.stepSize bp psm
    (ceil bs.y rect.bottom - rect.top / bs.y) * (ceil bs.x rect.right - rect.left / bs.x) := by
  rw [visited_eq, List.length_flatMap]
  simp only [List.length_map, List.length_range', List.map_const', List.sum_replicate_nat]

theorem step_area (bp : Fin 16384) (psm : Fin 64) :
    2 ^ (if bp.val % 32 ≠ 0 then 6 else 11) ≤
      (GSOffset.stepSize bp psm).x * (GSOffset.stepSize bp psm).y := by
  rw [GSOffset.stepSize]
  generalize GS_PSM.ofCode psm = p
  by_cases hbp : bp.val % 32 = 0
  · rw [if_pos hbp, if_neg (not_not.2 hbp)]
    cases p <;> decide
  · rw [if_neg hbp, if_pos hbp]
    cases p <;> decide

theorem side_eq {a lo hi : Nat} (ha : 0 < a) (hle : lo ≤ hi) :
    ((alignUp a hi : Int) - alignDown a lo) = ((a * (ceil a hi - lo / a) : Nat) : Int) := by
  have hcells : lo / a ≤ ceil a hi := by
    rw [← Nat.mul_le_mul_left_iff ha]
    exact Nat.le_trans (Nat.mul_div_le ..) (Nat.le_trans hle (le_mul_ceil ha))
  rw [alignUp_eq, alignDown_eq, Nat.mul_sub, Nat.cast_sub (Nat.mul_le_mul_left a hcells)]

theorem limit_spec {k : Nat} (hvisited : k ≤ (visited psm bp bw
      (rect.toGSVector4i.ralign (GSOffset.stepSize bp psm)) (GSOffset.stepSize bp psm)).length)
    (hpages : k ≤ MAX_PAGES) :
    ((k + 1 : Nat) : Int) ≤ GSOffset.limit bp psm rect.toGSVector4i := by
  obtain ⟨-, hx, hy⟩ := step_pos psm bp
  have harea := step_area bp psm
  rw [visited_length] at hvisited
  dsimp only at hvisited
  simp only [GSOffset.limit, GSVector4i.width, GSVector4i.height, GSVector4i.ralign]
  rw [side_eq hx rect.left_le, side_eq hy rect.top_le]
  generalize GSOffset.stepSize bp psm = bs at hvisited harea
  generalize (if bp.val % 32 ≠ 0 then 6 else 11) = n at harea
  generalize ceil bs.x rect.right - rect.left / bs.x = w at hvisited
  generalize ceil bs.y rect.bottom - rect.top / bs.y = h at hvisited
  have hsize : k ≤ bs.x * w * (bs.y * h) / 2 ^ n := by
    rw [Nat.le_div_iff_mul_le (Nat.two_pow_pos n)]
    calc k * 2 ^ n
      _ ≤ h * w * (bs.x * bs.y) := Nat.mul_le_mul hvisited harea
      _ = bs.x * w * (bs.y * h) := by ring
  rw [← Nat.cast_mul, Int.shiftRight_eq_div_pow, ← Int.natCast_ediv]
  omega

theorem pages_length_le {ps : List Nat} {ns : List (Fin 512)} (hnodup : ps.Nodup)
    (hmem : ∀ n, n ∈ ps ↔ ∃ m ∈ ns, m.val = n) : ps.length ≤ ns.length ∧ ps.length ≤ MAX_PAGES := by
  constructor
  · rw [← List.length_map (f := Fin.val)]
    exact (List.subperm_of_subset hnodup fun n hn => List.mem_map.2 ((hmem n).1 hn)).length_le
  · have hsub : ps ⊆ List.range MAX_PAGES := fun n hn => by
      obtain ⟨m, -, rfl⟩ := (hmem n).1 hn
      exact List.mem_range.2 m.isLt
    rw [← List.length_range (n := MAX_PAGES)]
    exact (List.subperm_of_subset hnodup hsub).length_le

theorem inTables_of_exact (h : PagesExact psm bp bw rect) : InTables psm bp rect.toGSVector4i := by
  by_contra hout
  obtain ⟨ps, hps, -⟩ := h.pages
  rw [GSOffset.GetPages, forBlocks_eq_none hout] at hps
  cases hps

end Array

/-- The list of the pages of a rectangle is exact if the loops stay within the tables, unless there
are pages but no blocks. -/
theorem pagesExact_iff (psm : Fin 64) (bp : Fin 16384) (bw : Fin 64) (rect : Rect) :
    PagesExact psm bp bw rect ↔ InTables psm bp rect.toGSVector4i ∧
      ((rect.toGSVector4i.ralign (GSOffset.stepSize bp psm)).isEmpty ∨
        ¬ (rect.toGSVector4i.ralign (GS_PSM.ofCode psm).bs).isEmpty) := by
  constructor
  · intro h
    have hin := inTables_of_exact h
    refine ⟨hin, or_iff_not_imp_left.2 fun hsteps hempty => ?_⟩
    obtain ⟨tmp, htmp, hbits⟩ := h.bits
    obtain ⟨n, hn⟩ := exists_visited bw hsteps
    rw [GSOffset.GetPagesAsBits, forBlocks_of_inTables hin, Option.some.injEq] at htmp
    have hset : tmp.test n = true := by
      rw [← htmp, PageBits.test_foldl_set, decide_eq_true hn]
      rfl
    exact not_covered hempty n ((hbits n).1 hset)
  · rintro ⟨hin, hblocks⟩
    have hcovered (n : Nat) : (∃ m ∈ visited psm bp bw
        (rect.toGSVector4i.ralign (GSOffset.stepSize bp psm)) (GSOffset.stepSize bp psm),
          m.val = n) ↔ Covered psm bp bw rect.toGSVector4i n := by
      rcases hblocks with hempty | hblocks
      · constructor
        · rintro ⟨m, hm, -⟩
          exact absurd hm (visited_of_isEmpty hempty m)
        · exact fun h => absurd h (not_covered (isEmpty_of_steps hempty) n)
      · exact visited_covered hblocks n
    constructor
    · have hinv := Found.inv_zero.foldl (visited psm bp bw
        (rect.toGSVector4i.ralign (GSOffset.stepSize bp psm)) (GSOffset.stepSize bp psm))
      rw [List.nil_append] at hinv
      obtain ⟨hvisited, hpages⟩ := pages_length_le hinv.nodup hinv.mem
      refine ⟨_, ?_, hinv.nodup, fun n => (hinv.mem n).trans (hcovered n), Nat.succ_le_succ hpages,
        limit_spec hvisited hpages⟩
      rw [GSOffset.GetPages, forBlocks_of_inTables hin]
      rfl
    · refine ⟨_, forBlocks_of_inTables hin, fun n => ?_⟩
      rw [PageBits.test_foldl_set, PageBits.test_zero, Bool.or_false, decide_eq_true_eq,
        ← hcovered]
      exact ⟨fun h => ⟨n, h, rfl⟩, fun ⟨m, hm, heq⟩ => Fin.ext heq ▸ hm⟩
    · intro textures pages_as_bit hrun TEX0 hrect
      rw [(kept_run hrun).pages TEX0, hrect]

/-- A transfer to the last pixel of a row and seven beyond it. -/
def lastPixel : Rect where
  left := 2047
  top := 0
  right := 2047 + 8
  bottom := 8
  left_le := by decide
  top_le := by decide
  right_le := by decide
  bottom_le := by decide

theorem not_pagesExact : ¬ PagesExact 0 0 10 lastPixel := by
  intro h
  exact absurd (inTables_of_exact h) (by decide)

end OmegaRed.GSdx
