import OmegaRed.Mdec.Decoder
import OmegaRed.Lib.Traces
import Mathlib.Algebra.Order.Group.Nat
import Mathlib.Tactic.Common

/-! When the DMA channels of the macroblock decoder stay inside of their buffers. -/

namespace OmegaRed.Mdec

open Lib Lib.Traces

/-- The code at `p` ends the block: it is `NOP`, or its run goes beyond the last coefficient. -/
def Stops (h : Nat → UInt16) (k p : Nat) : Prop := h p = nop ∨ 64 ≤ k + (runOf (h p) + 1)

/-- The codes of a block from `p` to `q`, with the coefficient `k` reached. -/
inductive Codes (h : Nat → UInt16) : Nat → Nat → Nat → Prop
  | stop {k p : Nat} : Stops h k p → Codes h k p (p + 1)
  | code {k p q : Nat} : ¬Stops h k p → Codes h (k + (runOf (h p) + 1)) (p + 1) q → Codes h k p q

/-- `n` blocks from `p` to `q`, each a halfword for its first coefficient and then codes. -/
inductive Blocks (h : Nat → UInt16) : Nat → Nat → Nat → Prop
  | nil (p : Nat) : Blocks h 0 p p
  | block {n p q r : Nat} : Codes h 0 (p + 1) q → Blocks h n q r → Blocks h (n + 1) p r

variable {h : Nat → UInt16} {k n p q : Nat}

theorem Codes.lt (hc : Codes h k p q) : p < q := by
  induction hc with
  | stop => exact Nat.lt_succ_self _
  | code _ _ ih => exact Nat.lt_trans (Nat.lt_succ_self _) ih

theorem Blocks.le (hb : Blocks h n p q) : p ≤ q := by
  induction hb with
  | nil => exact Nat.le_refl _
  | block hc _ ih => exact Nat.le_trans (Nat.le_trans (Nat.le_succ _) (Nat.le_of_lt hc.lt)) ih

section Block

variable (iqtab : Block) (qScale : Int32) (blk : Block) {size : Nat}

theorem afterCode_of_stops (hs : Stops h k p) : afterCode iqtab qScale k blk (h p) = none := by
  rw [afterCode]
  obtain hnop | hge := hs
  · rw [if_pos hnop]
  · rw [dif_neg (Nat.not_lt.mpr hge), ite_self]

theorem afterCode_of_not_stops (hs : ¬Stops h k p) :
    ∃ blk', afterCode iqtab qScale k blk (h p) = some (k + (runOf (h p) + 1), blk') := by
  obtain ⟨hne, hlt⟩ := not_or.mp hs
  exact ⟨_, by rw [afterCode, if_neg hne, dif_pos (Nat.not_le.mp hlt)]⟩

theorem readCodes_outside (hp : ¬p < size) :
    readCodes (peek size h) iqtab qScale (n + 1) k blk p = none := by
  rw [readCodes, peek, if_neg hp]
  rfl

theorem readCodes_inside (hp : p < size) :
    readCodes (peek size h) iqtab qScale (n + 1) k blk p =
      match afterCode iqtab qScale k blk (h p) with
      | none => some (blk, p + 1)
      | some (k, blk) => readCodes (peek size h) iqtab qScale n k blk (p + 1) := by
  rw [readCodes, peek, if_pos hp]
  rfl

theorem readCodes_id :
    readCodes (m := Id) h iqtab qScale (n + 1) k blk p =
      match afterCode iqtab qScale k blk (h p) with
      | none => (blk, p + 1)
      | some (k, blk) => readCodes (m := Id) h iqtab qScale n k blk (p + 1) := by
  rw [readCodes]
  rfl

theorem codes_readCodes (hk : k < 64) (hn : 64 ≤ k + n) :
    Codes h k p (readCodes (m := Id) h iqtab qScale n k blk p).2 := by
  induction n generalizing k blk p with
  | zero => omega
  | succ n ih =>
    rw [readCodes_id]
    by_cases hs : Stops h k p
    · rw [afterCode_of_stops iqtab qScale blk hs]
      exact .stop hs
    · obtain ⟨blk', hafter⟩ := afterCode_of_not_stops iqtab qScale blk hs
      have hlt := Nat.not_le.mp (not_or.mp hs).2
      rw [hafter]
      exact .code hs (ih blk' hlt (by omega))

theorem readCodes_eq (hk : k < 64) (hn : 64 ≤ k + n) (hc : Codes h k p q) :
    readCodes (peek size h) iqtab qScale n k blk p =
      if q ≤ size then some (readCodes (m := Id) h iqtab qScale n k blk p) else none := by
  induction hc generalizing n blk with
  | @stop k p hs =>
    obtain ⟨n, rfl⟩ := Nat.exists_eq_succ_of_ne_zero (show n ≠ 0 by omega)
    by_cases hp : p < size
    · rw [readCodes_inside _ _ _ hp, readCodes_id, afterCode_of_stops _ _ _ hs,
        if_pos (Nat.succ_le_of_lt hp)]
    · rw [readCodes_outside _ _ _ hp, if_neg fun hle => hp (Nat.lt_of_succ_le hle)]
  | @code k p q hs hrest ih =>
    obtain ⟨n, rfl⟩ := Nat.exists_eq_succ_of_ne_zero (show n ≠ 0 by omega)
    have hbehind := hrest.lt
    by_cases hp : p < size
    · obtain ⟨blk', hafter⟩ := afterCode_of_not_stops iqtab qScale blk hs
      have hlt := Nat.not_le.mp (not_or.mp hs).2
      rw [readCodes_inside _ _ _ hp, readCodes_id, hafter]
      exact ih blk' hlt (by omega)
    · rw [readCodes_outside _ _ _ hp, if_neg (by omega)]

theorem codes_readBlock (h : Nat → UInt16) (p : Nat) :
    Codes h 0 (p + 1) (readBlock (m := Id) h iqtab p).2 :=
  codes_readCodes _ _ _ (by decide) (by decide)

theorem readBlock_eq (hc : Codes h 0 (p + 1) q) :
    readBlock (peek size h) iqtab p =
      if q ≤ size then some (readBlock (m := Id) h iqtab p) else none := by
  have hbehind := hc.lt
  rw [readBlock, peek]
  split
  · change Option.bind (readCodes (peek size h) _ _ _ _ _ _) _ = _
    rw [readCodes_eq _ _ _ (by decide) (by decide) hc]
    split
    · rfl
    · rfl
  · rw [if_neg (by omega)]
    rfl

end Block

theorem blocks_readBlocks (h : Nat → UInt16) (iqtabs : List Block) (p : Nat) :
    Blocks h iqtabs.length p (readBlocks (m := Id) h iqtabs p).2 := by
  induction iqtabs generalizing p with
  | nil => exact .nil p
  | cons iqtab iqtabs ih => exact .block (codes_readBlock iqtab h p) (ih _)

theorem readBlocks_eq (size : Nat) (iqtabs : List Block) (hp : p ≤ size) :
    readBlocks (peek size h) iqtabs p =
      if (readBlocks (m := Id) h iqtabs p).2 ≤ size then some (readBlocks (m := Id) h iqtabs p)
      else none := by
  induction iqtabs generalizing p with
  | nil =>
    change some ([], p) = if p ≤ size then some ([], p) else none
    rw [if_pos hp]
  | cons iqtab iqtabs ih =>
    have hblock : readBlock (peek size h) iqtab p = _ :=
      readBlock_eq iqtab (codes_readBlock iqtab h p)
    have hle := (blocks_readBlocks h iqtabs (readBlock (m := Id) h iqtab p).2).le
    change Option.bind (readBlock (peek size h) iqtab p) _ =
      if (readBlocks (m := Id) h iqtabs (readBlock (m := Id) h iqtab p).2).2 ≤ size then _ else _
    rw [hblock]
    split
    · rename_i hq
      rw [Option.bind_some, ih hq]
      split
      · rfl
      · rfl
    · rw [if_neg (by omega)]
      rfl

theorem Codes.unique {q' : Nat} (hc : Codes h k p q) (hc' : Codes h k p q') : q = q' := by
  induction hc with
  | stop hs =>
    cases hc' with
    | stop => rfl
    | code hgo => exact absurd hs hgo
  | code hgo _ ih =>
    cases hc' with
    | stop hs => exact absurd hs hgo
    | code _ hrest => exact ih hrest

theorem Blocks.unique {q' : Nat} (hb : Blocks h n p q) (hb' : Blocks h n p q') : q = q' := by
  induction hb with
  | nil =>
    cases hb'
    rfl
  | block hc _ ih =>
    cases hb' with
    | block hc' hrest =>
      cases hc.unique hc'
      exact ih hrest

/-- The samples of the macroblock at `p`. -/
def decoded (h : Nat → UInt16) (iqY iqUv : Block) (p : Nat) : Nat → Int32 :=
  samples (rl2blk (m := Id) h iqY iqUv p).1

theorem rl2blk_eq (size : Nat) (iqY iqUv : Block) (hb : Blocks h 6 p q) :
    rl2blk (peek size h) iqY iqUv p =
      if q ≤ size then some (rl2blk (m := Id) h iqY iqUv p) else none := by
  have hq : (rl2blk (m := Id) h iqY iqUv p).2 = q := (blocks_readBlocks h _ p).unique hb
  by_cases hp : p ≤ size
  · rw [← hq]
    exact readBlocks_eq size _ hp
  · have hle := hb.le
    rw [if_neg (by omega), rl2blk, readBlocks, readBlock, peek, if_neg (by omega)]
    rfl

/-- A sum that `roundtbl` has an entry for. -/
def InTable (c : Int32) : Prop := -384 ≤ c.toInt ∧ c.toInt < 384

theorem round_isSome_iff (c : Int32) : (round c).isSome ↔ InTable c := by
  have hlow := c.le_toInt
  have hhigh := c.toInt_lt
  have hsum : (c + 128 + 256).toInt = (c.toInt + 384).bmod (2 ^ 32) := by
    rw [Int32.add_assoc, Int32.toInt_add]
    rfl
  have hmem : 0 ≤ (c + 128 + 256).toInt ∧ (c + 128 + 256).toInt < 768 ↔ InTable c := by
    rw [hsum, InTable, Int.bmod_def]
    omega
  rw [round]
  split
  · rename_i hin
    exact iff_of_true rfl (hmem.mp hin)
  · rename_i hout
    exact iff_of_false Bool.false_ne_true fun hin => hout (hmem.mpr hin)

/-- The colours of all pixels are in the table. -/
def Clamped (bw : Bool) (blk : Nat → Int32) : Prop :=
  ∀ px ∈ pixels, ∀ c, shades bw blk px = some c → InTable c.1 ∧ InTable c.2.1 ∧ InTable c.2.2

theorem rounded_isSome_iff (c : Int32 × Int32 × Int32) :
    (rounded c).isSome ↔ InTable c.1 ∧ InTable c.2.1 ∧ InTable c.2.2 := by
  rw [← round_isSome_iff, ← round_isSome_iff, ← round_isSome_iff, rounded]
  cases round c.1 <;> cases round c.2.1 <;> cases round c.2.2 <;> simp

theorem pixels_lt : ∀ px ∈ pixels, px.n < 256 ∧ px.y < 384 ∧ px.cr < 384 ∧ px.cb < 384 := by
  have hall : pixels.all fun px =>
      px.n < 256 && px.y < 384 && px.cr < 384 && px.cb < 384 := by decide +kernel
  intro px hpx
  simpa [and_assoc] using List.all_eq_true.mp hall px hpx

theorem exists_last_pixel : ∃ px ∈ pixels, px.n = 255 := by
  have hany : pixels.any fun px => px.n == 255 := by decide +kernel
  simpa using List.any_eq_true.mp hany

theorem exists_shades (bw : Bool) (blk : Nat → Int32) {px : Pixel} (hpx : px ∈ pixels) :
    ∃ c, shades bw blk px = some c := by
  obtain ⟨-, hy, hcr, hcb⟩ := pixels_lt px hpx
  rw [shades, peek, if_pos hy, Option.bind_some]
  cases bw with
  | true => exact ⟨_, rfl⟩
  | false =>
    rw [if_neg Bool.false_ne_true, peek, if_pos hcr, Option.bind_some, peek, if_pos hcb]
    exact ⟨_, rfl⟩

theorem colour_isSome_iff (bw : Bool) (blk : Nat → Int32) {px : Pixel} (hpx : px ∈ pixels) :
    (colour bw blk px).isSome ↔
      ∀ c, shades bw blk px = some c → InTable c.1 ∧ InTable c.2.1 ∧ InTable c.2.2 := by
  obtain ⟨c, hc⟩ := exists_shades bw blk hpx
  rw [colour, hc, Option.bind_some, rounded_isSome_iff]
  exact ⟨fun h _ heq => Option.some.inj heq ▸ h, fun h => h c rfl⟩

theorem poke_isSome_iff {α : Type} (size : Nat) (m : Nat → α) (i : Nat) (a : α) :
    (poke size m i a).isSome ↔ i < size := by
  rw [poke]
  split
  · rename_i hlt
    exact iff_of_true rfl hlt
  · rename_i hge
    exact iff_of_false Bool.false_ne_true hge

theorem bind_isSome_iff {α β : Type} {o : Option α} {f : α → Option β} {P : Prop}
    (hf : ∀ a, (f a).isSome ↔ P) : (o.bind f).isSome ↔ o.isSome ∧ P := by
  cases o with
  | none => exact iff_of_false Bool.false_ne_true fun h => absurd h.1 Bool.false_ne_true
  | some a => exact (hf a).trans (iff_and_self.mpr fun _ => rfl)

/-- `rgb` draws `256` pixels in `w` words of the image. -/
def Draws (w : Nat) (bw : Bool)
    (rgb : (Nat → Int32) → Nat → (Nat → UInt8) → Pixel → Option (Nat → UInt8)) : Prop :=
  ∀ blk image arr, (pixels.foldlM (rgb blk image) arr).isSome ↔
    Clamped bw blk ∧ 2 * image + 4 * w ≤ mdecArr2Size

theorem rgb15_isSome_iff (bw : Bool) (blk : Nat → Int32) (image : Nat) (arr : Nat → UInt8)
    (px : Pixel) : (rgb15 bw blk image arr px).isSome ↔
      (colour bw blk px).isSome ∧ 2 * (image + px.n) + 1 < mdecArr2Size := by
  refine bind_isSome_iff fun c => (bind_isSome_iff fun _ => poke_isSome_iff _ _ _ _).trans ?_
  rw [poke_isSome_iff]
  omega

theorem rgb24_isSome_iff (bw : Bool) (blk : Nat → Int32) (image : Nat) (arr : Nat → UInt8)
    (px : Pixel) : (rgb24 bw blk image arr px).isSome ↔
      (colour bw blk px).isSome ∧ 2 * image + 3 * px.n + 2 < mdecArr2Size := by
  have hlast (c : UInt8 × UInt8 × UInt8) (arr : Nat → UInt8) :
      ((poke mdecArr2Size arr (2 * image + 3 * px.n + 1) c.2.1).bind fun arr =>
        poke mdecArr2Size arr (2 * image + 3 * px.n) c.2.2).isSome ↔
        2 * image + 3 * px.n + 1 < mdecArr2Size := by
    refine (bind_isSome_iff fun _ => poke_isSome_iff _ _ _ _).trans ?_
    rw [poke_isSome_iff]
    omega
  refine bind_isSome_iff fun c => (bind_isSome_iff (hlast c)).trans ?_
  rw [poke_isSome_iff]
  omega

theorem draws_of {w : Nat} {bw : Bool}
    {rgb : (Nat → Int32) → Nat → (Nat → UInt8) → Pixel → Option (Nat → UInt8)} {last : Nat → Nat}
    (hrgb : ∀ blk image arr px, (rgb blk image arr px).isSome ↔
      (colour bw blk px).isSome ∧ 2 * image + last px.n < mdecArr2Size)
    (hmono : ∀ n, n < 256 → last n ≤ last 255) (hlast : last 255 + 1 = 4 * w) :
    Draws w bw rgb := by
  intro blk image arr
  rw [foldlM_isSome_iff fun arr px _ => hrgb blk image arr px]
  constructor
  · intro hall
    obtain ⟨px, hpx, hn⟩ := exists_last_pixel
    have hend := (hall px hpx).2
    rw [hn] at hend
    exact ⟨fun px hpx => (colour_isSome_iff bw blk hpx).mp (hall px hpx).1, by omega⟩
  · rintro ⟨hclamped, hend⟩ px hpx
    have hle := hmono px.n (pixels_lt px hpx).1
    exact ⟨(colour_isSome_iff bw blk hpx).mpr (hclamped px hpx), by omega⟩

theorem draws_rgb15 (bw : Bool) : Draws 128 bw (rgb15 bw) :=
  draws_of (fun blk image arr px => (rgb15_isSome_iff bw blk image arr px).trans
    (by rw [Nat.mul_add, Nat.add_assoc])) (fun n hn => show 2 * n + 1 ≤ _ by omega) rfl

theorem draws_rgb24 (bw : Bool) : Draws 192 bw (rgb24 bw) :=
  draws_of (fun blk image arr px => (rgb24_isSome_iff bw blk image arr px).trans
    (by rw [Nat.add_assoc])) (fun n hn => show 3 * n + 2 ≤ _ by omega) rfl

/-- The next `n` macroblocks from `p` on end inside of `mdecMem`, and the table has their colours. -/
def Decodes (h : Nat → UInt16) (iqY iqUv : Block) (bw : Bool) : Nat → Nat → Prop
  | 0, _ => True
  | n + 1, p => ∃ q, Blocks h 6 p q ∧ q ≤ mdecMemSize ∧ Clamped bw (decoded h iqY iqUv p) ∧
      Decodes h iqY iqUv bw n q

/-- The number of macroblocks of `w` words that `size` words take. -/
def rounds (w : Nat) (size : Int) : Nat := (size.toNat + (w - 1)) / w

theorem rounds_of_pos {w : Nat} (hw : 0 < w) {size : Int} (hsize : 0 < size) :
    rounds w size = rounds w (size - w) + 1 := by
  rw [rounds, rounds]
  by_cases hle : (w : Int) ≤ size
  · have heq : size.toNat + (w - 1) = (size - w).toNat + (w - 1) + w := by omega
    rw [heq, Nat.add_div_right _ hw]
  · have hzero : (size - w).toNat = 0 := by omega
    have heq : size.toNat + (w - 1) = size.toNat - 1 + w := by omega
    rw [heq, hzero, Nat.zero_add, Nat.add_div_right _ hw, Nat.div_eq_of_lt (by omega),
      Nat.div_eq_of_lt (by omega)]

theorem rounds_of_nonpos {w : Nat} (hw : 0 < w) {size : Int} (hsize : ¬0 < size) :
    rounds w size = 0 := by
  rw [rounds, Int.toNat_of_nonpos (by omega), Nat.zero_add, Nat.div_eq_of_lt (by omega)]

theorem macroblocks_isSome_iff {w : Nat} {bw : Bool}
    {rgb : (Nat → Int32) → Nat → (Nat → UInt8) → Pixel → Option (Nat → UInt8)}
    (hdraws : Draws w bw rgb) (hw : 0 < w) (n : Nat) {size : Int} (hn : size ≤ n) (image : Nat)
    (s : State) :
    (State.macroblocks w rgb n size image s).isSome ↔
      (0 < rounds w size → 2 * image + 4 * w * rounds w size ≤ mdecArr2Size) ∧
        Decodes s.mdecMem s.iqY s.iqUv bw (rounds w size) s.rl := by
  induction n generalizing size image s with
  | zero =>
    rw [State.macroblocks, rounds_of_nonpos hw (by omega)]
    exact iff_of_true rfl ⟨fun h => absurd h (Nat.lt_irrefl 0), trivial⟩
  | succ n ih =>
    rw [State.macroblocks]
    by_cases hpos : 0 < size
    · rw [if_pos hpos, rounds_of_pos hw hpos]
      generalize hr : rl2blk (m := Id) s.mdecMem s.iqY s.iqUv s.rl = r
      have hb : Blocks s.mdecMem 6 s.rl r.2 := by
        rw [← hr]
        exact blocks_readBlocks s.mdecMem [s.iqUv, s.iqUv, s.iqY, s.iqY, s.iqY, s.iqY] s.rl
      rw [rl2blk_eq mdecMemSize s.iqY s.iqUv hb, hr]
      have hdecoded : decoded s.mdecMem s.iqY s.iqUv s.rl = samples r.1 := by rw [decoded, hr]
      rw [Decodes, hdecoded]
      by_cases hq : r.2 ≤ mdecMemSize
      · have hfuel : size - w ≤ n := by omega
        rw [if_pos hq, Option.bind_some]
        have hbehind (arr : Nat → UInt8) : (State.macroblocks w rgb n (size - w) (image + 2 * w)
            { s with rl := r.2, mdecArr2 := arr }).isSome ↔
            (0 < rounds w (size - w) →
              2 * (image + 2 * w) + 4 * w * rounds w (size - w) ≤ mdecArr2Size) ∧
              Decodes s.mdecMem s.iqY s.iqUv bw (rounds w (size - w)) r.2 :=
          ih hfuel _ _
        refine (bind_isSome_iff hbehind).trans ?_
        rw [hdraws, Nat.mul_succ, Nat.mul_add]
        constructor
        · rintro ⟨⟨hclamped, himage⟩, hmore, hrest⟩
          refine ⟨fun _ => ?_, _, hb, hq, hclamped, hrest⟩
          obtain hzero | hrounds := Nat.eq_zero_or_pos (rounds w (size - w))
          · rw [hzero]
            omega
          · have hend := hmore hrounds
            omega
        · rintro ⟨himage, q, hb', -, hclamped, hrest⟩
          rw [hb'.unique hb] at hrest
          have hend := himage (Nat.succ_pos _)
          exact ⟨⟨hclamped, by omega⟩, fun _ => by omega, hrest⟩
      · rw [if_neg hq]
        refine iff_of_false Bool.false_ne_true fun hin => ?_
        obtain ⟨-, q, hb', hle, -⟩ := hin
        rw [hb'.unique hb] at hle
        exact hq hle
    · rw [if_neg hpos, rounds_of_nonpos hw hpos]
      exact iff_of_true rfl ⟨fun h => absurd h (Nat.lt_irrefl 0), trivial⟩

theorem pokeWord_isSome_iff (mem : Nat → UInt16) (i : Nat) (w : UInt32) :
    (pokeWord mem i w).isSome ↔ i < 0x100000 := by
  refine (bind_isSome_iff fun _ => poke_isSome_iff _ _ _ _).trans ?_
  rw [poke_isSome_iff, mdecMemSize]
  omega

theorem peekWord_isSome_iff (arr : Nat → UInt8) (i : Nat) :
    (peekWord arr i).isSome ↔ i < 0x100000 := by
  rw [peekWord]
  by_cases hlt : i < 0x100000
  · have hpeek (k : Nat) (hk : k < 4) : peek mdecArr2Size arr (4 * i + k) = some (arr (4 * i + k)) := by
      rw [peek, mdecArr2Size, if_pos (by omega)]
    have hfirst := hpeek 0 (by decide)
    rw [Nat.add_zero] at hfirst
    rw [hfirst, hpeek 1 (by decide), hpeek 2 (by decide), hpeek 3 (by decide)]
    exact iff_of_true rfl hlt
  · rw [peek, mdecArr2Size, if_neg (by omega)]
    exact iff_of_false Bool.false_ne_true hlt

theorem forall_range_lt_iff {n k : Nat} : (∀ i ∈ List.range n, i < k) ↔ n ≤ k := by
  constructor
  · intro hall
    by_contra hlt
    exact absurd (hall k (List.mem_range.mpr (Nat.not_le.mp hlt))) (Nat.lt_irrefl k)
  · intro hle i hi
    exact Nat.lt_of_lt_of_le (List.mem_range.mp hi) hle

/-- The transfer is not larger than the buffers, and the codes and the colours of its macroblocks are
inside of theirs. -/
def Inside (s : State) : Event → Prop
  | .psxDma0 _ _ bcr chcr => chcr = 0x01000201 → dmaSize bcr ≤ 0x100000
  | .psxDma1 _ bcr chcr => chcr = 0x01000200 →
      if s.command &&& 0x08000000 ≠ 0 then
        dmaSize bcr ≤ 0x100000 ∧
          Decodes s.mdecMem s.iqY s.iqUv s.bw (rounds 128 (dmaSize bcr)) s.rl
      else
        dmaSize bcr ≤ 0xFFFC0 ∧
          Decodes s.mdecMem s.iqY s.iqUv s.bw (rounds 192 (dmaSize bcr)) s.rl
  | _ => True

theorem psxDma0_isSome_iff (s : State) (iopMem : UInt32 → UInt32) (adr bcr chcr : UInt32) :
    (s.psxDma0 iopMem adr bcr chcr).isSome ↔ (chcr = 0x01000201 → dmaSize bcr ≤ 0x100000) := by
  rw [State.psxDma0]
  split
  · rename_i hne
    exact iff_of_true rfl fun heq => absurd heq hne
  · rename_i heq
    rw [ne_eq, not_not] at heq
    split
    · exact iff_of_true rfl fun _ => by omega
    · rw [Option.isSome_map,
        foldlM_isSome_iff fun mem i _ => pokeWord_isSome_iff mem i _, forall_range_lt_iff]
      constructor
      · intro hle _
        omega
      · intro hle
        have hsize := hle heq
        omega

theorem psxDma1_isSome_iff (s : State) (adr bcr chcr : UInt32) :
    (s.psxDma1 adr bcr chcr).isSome ↔ Inside s (.psxDma1 adr bcr chcr) := by
  rw [State.psxDma1, Inside]
  split
  · rename_i hne
    exact iff_of_true rfl fun heq => absurd heq hne
  · rename_i heq
    rw [ne_eq, not_not] at heq
    have hout (t : State) : (((List.range (dmaSize bcr).toNat).mapM fun i =>
        (peekWord t.mdecArr2 i).map fun w => ((adr &&& 0x00FFFFFF) + .ofNat (4 * i), w)).map
          fun out => (t, out)).isSome ↔ (dmaSize bcr).toNat ≤ 0x100000 := by
      rw [Option.isSome_map, mapM_isSome_iff]
      simp only [Option.isSome_map, peekWord_isSome_iff]
      exact forall_range_lt_iff
    split
    · rename_i hneg
      have hzero (w : Nat) (hw : 0 < w) : rounds w (dmaSize bcr) = 0 :=
        rounds_of_nonpos hw (by omega)
      rw [hzero 128 (by decide), hzero 192 (by decide)]
      refine iff_of_true rfl fun _ => ?_
      split
      · exact ⟨by omega, trivial⟩
      · exact ⟨by omega, trivial⟩
    · rename_i hpos
      refine (bind_isSome_iff hout).trans ?_
      have hfuel : dmaSize bcr ≤ ((dmaSize bcr).toNat : Int) := Int.self_le_toNat _
      split
      · rw [macroblocks_isSome_iff (draws_rgb15 s.bw) (by decide) _ hfuel, rounds, mdecArr2Size]
        constructor
        · rintro ⟨⟨-, hdecodes⟩, hle⟩ -
          exact ⟨by omega, hdecodes⟩
        · intro hin
          obtain ⟨hle, hdecodes⟩ := hin heq
          exact ⟨⟨fun _ => by omega, hdecodes⟩, by omega⟩
      · rw [macroblocks_isSome_iff (draws_rgb24 s.bw) (by decide) _ hfuel, rounds, mdecArr2Size]
        constructor
        · rintro ⟨⟨himage, hdecodes⟩, hle⟩ -
          exact ⟨by omega, hdecodes⟩
        · intro hin
          obtain ⟨hle, hdecodes⟩ := hin heq
          exact ⟨⟨fun _ => by omega, hdecodes⟩, by omega⟩

theorem step_isSome_iff (s : State) (ev : Event) : (s.step ev).isSome ↔ Inside s ev := by
  cases ev with
  | mdecWrite0 data => exact iff_of_true rfl trivial
  | mdecWrite1 data => exact iff_of_true rfl trivial
  | psxDma0 iopMem adr bcr chcr => exact psxDma0_isSome_iff s iopMem adr bcr chcr
  | psxDma1 adr bcr chcr =>
    rw [State.step, Option.isSome_map]
    exact psxDma1_isSome_iff s adr bcr chcr

end OmegaRed.Mdec
