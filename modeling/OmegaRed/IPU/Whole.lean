import OmegaRed.IPU.Stream
import OmegaRed.IPU.Command

/-! The commands read the same bits when their input comes piece by piece as when all of it is
there. -/

namespace OmegaRed.IPU

/-- All the input is there, and the output never fills. -/
structure Whole where
  pos : Nat
  out : List U128

/-- The bit reader at a position of the input. -/
def look (data : Nat → U128) (pos : Nat) : State where
  internalQwc k := data (pos / 128 + k)
  BP := pos % 128
  IFC := 0
  FP := 2
  fifo := ⟨fun _ => 0, 0, 0⟩

def whole (data : Nat → U128) : Port Whole where
  fillBuffer r _ := (r, true)
  getBits k r adv :=
    (if adv then { r with pos := r.pos + 8 * k } else r, some ((look data r.pos).bitsAt k))
  ubits r n := (look data r.pos).ubits n
  sbits r n := (look data r.pos).sbits n
  advance r n := { r with pos := r.pos + n }
  write r l := ({ r with out := r.out ++ l }, l.length)

/-- What has gone into the input FIFO and come out of the output FIFO. -/
structure Passed where
  sent : Nat
  drained : List U128

def stream (data : Nat → U128) (sent pos : Nat) : Stream := ⟨(List.range sent).map data, pos⟩

/-- The two FIFOs count alike. -/
def FifoOut.asIn (o : FifoOut) : State := ⟨fun _ => 0, 0, o.OFC, 0, o.fifo⟩

/-- The FIFOs are at this place of the whole input and output. -/
structure Matches (data : Nat → U128) (p : Passed) (io : Io) (r : Whole) : Prop where
  bits : ∃ q, At (stream data p.sent r.pos) io.bits q
  out : ∃ l, Queued io.out.asIn l ∧ p.drained ++ l = r.out

/-- The next `m` bits are in the window, and do not reach over `limit`. -/
structure Near (data : Nat → U128) (p : Passed) (limit m : Nat) (io : Io) (r : Whole) : Prop
    extends Matches data p io r where
  near : io.bits.BP + m ≤ 128 * io.bits.FP
  limit : r.pos + m ≤ limit

section Reads

variable {data : Nat → U128} {p : Passed} {io : Io} {r : Whole} {limit m n : Nat}

theorem bitsOf_injective {x y : BitVec n} (h : bitsOf x = bitsOf y) : x = y :=
  BitVec.eq_of_getMsbD_eq fun i hi => List.map_inj_left.mp h i (List.mem_range.mpr hi)

theorem has_stream {sent pos : Nat} : (stream data sent pos).Has n ↔ pos + n ≤ 128 * sent := by
  rw [Stream.Has, stream, List.length_map, List.length_range]

theorem look_slice {sent pos : Nat} (hn : n ≤ 128) (hhas : (stream data sent pos).Has n) :
    (look data pos).slice n = (stream data sent pos).slice n := by
  rw [has_stream] at hhas
  refine List.map_congr_left fun u hu => ?_
  have hu := List.mem_range.mp hu
  have hq : pos / 128 + (pos % 128 + u) / 128 = (pos + u) / 128 := by omega
  have hr : (pos % 128 + u) % 128 = (pos + u) % 128 := by omega
  have hlt : (pos + u) / 128 < sent := by omega
  rw [State.streamBit_window _ (by simp only [look]; omega)]
  simp only [look, stream, Stream.bit, hq, hr, List.getD_eq_getElem?_getD, List.getElem?_map,
    List.getElem?_range hlt, Option.map_some, Option.getD_some]

theorem Near.le (h : Near data p limit m io r) (hn : n ≤ m) : Near data p limit n io r :=
  ⟨h.toMatches, Nat.le_trans (Nat.add_le_add_left hn _) h.near,
    Nat.le_trans (Nat.add_le_add_left hn _) h.limit⟩

theorem Near.slice (h : Near data p limit m io r) (hm : m ≤ 128) :
    io.bits.slice m = (look data r.pos).slice m := by
  obtain ⟨q, hat⟩ := h.bits
  obtain ⟨hhas, hslice⟩ := hat.slice_eq h.near
  rw [hslice, look_slice hm hhas]

theorem Near.ubits (h : Near data p limit m io r) (hn : n ≤ m) (hbits : n ≤ 25) :
    fifos.ubits io n = (whole data).ubits r n := by
  apply bitsOf_injective
  change bitsOf (io.bits.ubits n) = bitsOf ((look data r.pos).ubits n)
  rw [State.bitsOf_ubits _ hbits, State.bitsOf_ubits _ hbits, (h.le hn).slice (by omega)]

theorem Near.sbits (h : Near data p limit m io r) (hpos : 1 ≤ n) (hn : n ≤ m) (hbits : n ≤ 25) :
    fifos.sbits io n = (whole data).sbits r n := by
  have hslice := (h.le hn).slice (by omega)
  have hfirst : streamBit io.bits.window io.bits.BP =
      streamBit (look data r.pos).window (look data r.pos).BP :=
    List.map_inj_left.mp hslice 0 (List.mem_range.mpr hpos)
  apply bitsOf_injective
  change bitsOf (io.bits.sbits n) = bitsOf ((look data r.pos).sbits n)
  rw [State.bitsOf_sbits _ hpos hbits, State.bitsOf_sbits _ hpos hbits, hslice, hfirst]

theorem Near.bitsAt {k : Nat} (h : Near data p limit (8 * k) io r) (hk : 8 * k ≤ 128) :
    io.bits.bitsAt k = (look data r.pos).bitsAt k := by
  have hslice := List.map_inj_left.mp (h.slice hk)
  refine BitVec.eq_of_getLsbD_eq fun i hi => ?_
  have hbyte : i / 8 < k := by omega
  have hbit : i % 8 < 8 := Nat.mod_lt _ (by decide)
  have hsame := hslice (8 * (i / 8) + (7 - i % 8)) (List.mem_range.mpr (by omega))
  rw [← Nat.div_add_mod i 8, State.getLsbD_bitsAt _ hbyte hbit, State.getLsbD_bitsAt _ hbyte hbit,
    Nat.add_assoc, Nat.add_assoc]
  exact hsame

theorem Matches.advance (h : Matches data p io r) (hn : n ≤ 128) (hcare : ¬ Passes io.bits n) :
    Matches data p (fifos.advance io n) ((whole data).advance r n) := by
  obtain ⟨q, hat⟩ := h.bits
  obtain ⟨q', hat'⟩ := hat.advance hn hcare
  exact ⟨⟨q', hat'⟩, h.out⟩

theorem Near.advance (h : Near data p limit m io r) (hm : m ≤ 128) (hn : n ≤ m) :
    Near data p limit (m - n) (fifos.advance io n) ((whole data).advance r n) := by
  have hnear := h.near
  obtain ⟨q, hat⟩ := h.bits
  have hbp := hat.bp
  have hfp := hat.fp
  have hlimit := h.limit
  refine ⟨h.toMatches.advance (by omega) fun ⟨hzero, _, hcross⟩ => ?_, ?_, ?_⟩
  · rw [hzero] at hnear
    omega
  · change (io.bits.advance n).BP + (m - n) ≤ 128 * (io.bits.advance n).FP
    rw [State.advance]
    dsimp only
    by_cases hcross : io.bits.BP + n ≥ 128
    · rw [if_pos hcross]
      by_cases htwo : io.bits.FP = 2
      · rw [if_pos htwo]
        dsimp only
        omega
      · rw [if_neg htwo, if_neg (by omega)]
        dsimp only
        omega
    · rw [if_neg hcross]
      dsimp only
      omega
  · change r.pos + n + (m - n) ≤ limit
    omega

theorem Matches.fillBuffer (h : Matches data p io r) (hn : 1 ≤ n ∧ n ≤ 128) :
    Matches data p (fifos.fillBuffer io n).1 r ∧
      (fifos.fillBuffer io n).2 = decide (r.pos + n ≤ 128 * p.sent) ∧
      ((fifos.fillBuffer io n).2 = true → Near data p (r.pos + n) n (fifos.fillBuffer io n).1 r) := by
  obtain ⟨q, hat⟩ := h.bits
  obtain ⟨hat', hbp, hflag, hwindow⟩ := hat.fillBuffer n hn
  rw [decide_eq_decide.mpr has_stream] at hflag
  have hmatches : Matches data p (fifos.fillBuffer io n).1 r := ⟨⟨q, hat'⟩, h.out⟩
  refine ⟨hmatches, hflag, fun htrue => ⟨hmatches, ?_, Nat.le_refl _⟩⟩
  have := hwindow htrue
  rw [← hbp] at this
  exact this

theorem Matches.getBits_none (h : Matches data p io r) {k : Nat} (hk : 1 ≤ k ∧ k ≤ 8) (adv : Bool)
    (hshort : ¬ r.pos + 8 * k ≤ 128 * p.sent) :
    ∃ io', fifos.getBits k io adv = (io', none) ∧ Matches data p io' r := by
  obtain ⟨hmatches, hflag, -⟩ := h.fillBuffer (n := 8 * k) (by omega)
  refine ⟨_, ?_, hmatches⟩
  rw [decide_eq_false hshort] at hflag
  simp only [fifos] at hflag ⊢
  rw [State.getBits]
  generalize io.bits.fillBuffer (8 * k) = filled at hflag ⊢
  obtain ⟨bits, flag⟩ := filled
  subst hflag
  rfl

theorem Matches.getBits_some (h : Matches data p io r) {k : Nat} (hk : 1 ≤ k ∧ k ≤ 8) (adv : Bool)
    (hhas : r.pos + 8 * k ≤ 128 * p.sent) :
    ∃ io', fifos.getBits k io adv = (io', ((whole data).getBits k r adv).2) ∧
      Matches data p io' ((whole data).getBits k r adv).1 := by
  obtain ⟨hmatches, hflag, hnear⟩ := h.fillBuffer (n := 8 * k) (by omega)
  rw [decide_eq_true hhas] at hflag
  have hnear := hnear hflag
  have hvalue := hnear.bitsAt (by omega)
  have hadvance := (hnear.advance (by omega) (Nat.le_refl _)).toMatches
  simp only [fifos, whole] at hflag hmatches hvalue hadvance ⊢
  rw [State.getBits]
  generalize io.bits.fillBuffer (8 * k) = filled at hflag hmatches hvalue hadvance ⊢
  obtain ⟨bits, flag⟩ := filled
  subst hflag
  cases adv with
  | false => exact ⟨_, by rw [← hvalue]; rfl, hmatches⟩
  | true => exact ⟨_, by rw [← hvalue]; rfl, hadvance⟩

theorem foldl_push_asIn (l : List U128) (o : FifoOut) :
    (l.foldl FifoOut.push o).asIn = l.foldl State.push o.asIn := by
  induction l generalizing o with
  | nil => rfl
  | cons x l ih => exact ih (o.push x)

theorem Matches.write (h : Matches data p io r) (l : List U128) :
    Matches data p (fifos.write io l).1
      { r with out := r.out ++ l.take (fifos.write io l).2 } := by
  obtain ⟨queue, hqueue, hout⟩ := h.out
  have hroom := hqueue.ifc
  have hlen : (l.take (min l.length (8 - io.out.OFC))).length = min l.length (8 - io.out.OFC) := by
    rw [List.length_take]
    omega
  have hpushed := hqueue.foldl_push (l.take (min l.length (8 - io.out.OFC))) (by
    simp only [FifoOut.asIn] at hroom ⊢
    omega)
  rw [hlen] at hpushed
  refine ⟨h.bits, queue ++ l.take (min l.length (8 - io.out.OFC)), ?_, ?_⟩
  · simp only [fifos, FifoOut.write]
    rw [foldl_push_asIn]
    exact hpushed
  · simp only [fifos, FifoOut.write]
    rw [← List.append_assoc, hout]

end Reads

/-! ## Codes -/

section Codes

variable {data : Nat → U128} {p : Passed} {io : Io} {r : Whole} {limit m n : Nat}

/-- The same value, at the same place. -/
def Agree (data : Nat → U128) (p : Passed) (limit : Nat) {α : Type} (x : Io × α)
    (y : Whole × α) : Prop :=
  x.2 = y.2 ∧ Matches data p x.1 y.1 ∧ y.1.pos ≤ limit

theorem Near.agree {α : Type} {v w : α} (h : Near data p limit m io r) (hv : v = w) :
    Agree data p limit (io, v) (r, w) :=
  ⟨hv, h.toMatches, Nat.le_trans (Nat.le_add_right _ _) h.limit⟩

theorem Agree.ite {α : Type} {c : Prop} [Decidable c] {x x' : Io × α} {y y' : Whole × α}
    (hpos : Agree data p limit x y) (hneg : Agree data p limit x' y') :
    Agree data p limit (if c then x else x') (if c then y else y') := by
  by_cases hc : c
  · rwa [if_pos hc, if_pos hc]
  · rwa [if_neg hc, if_neg hc]

theorem lookup_len_le {tab : List Vlc} (h : ∀ v ∈ tab, v.len ≤ n) (i : BitVec 32) :
    (lookup tab i).len ≤ n := by
  rw [lookup, List.getD_eq_getElem?_getD]
  cases hget : tab[i.toNat]? with
  | none => exact Nat.zero_le n
  | some v => exact h v (List.mem_of_getElem? hget)

theorem Near.getbits (h : Near data p limit m io r) (hm : m ≤ 128) (hn : n ≤ m) (hbits : n ≤ 25) :
    Agree data p limit (fifos.getbits io n) ((whole data).getbits r n) :=
  (h.advance hm hn).agree (h.ubits hn hbits)

theorem Near.getMacroblockAddressIncrement (h : Near data p limit 32 io r) (mpeg1 : Bool) :
    Agree data p limit (fifos.getMacroblockAddressIncrement mpeg1 io)
      ((whole data).getMacroblockAddressIncrement mpeg1 r) := by
  have hfound (len : Nat) (hlen : len ≤ 11) (value : BitVec 32) :
      Agree data p limit (fifos.advance io len, value) ((whole data).advance r len, value) :=
    (h.advance (by decide) (by omega)).agree rfl
  have h5 : ∀ i, (lookup MBA_5 i).len ≤ 11 := lookup_len_le (by decide)
  have h11 : ∀ i, (lookup MBA_11 i).len ≤ 11 := lookup_len_le (by decide)
  simp only [Port.getMacroblockAddressIncrement, h.ubits (n := 16) (by decide) (by decide),
    h.ubits (n := 5) (by decide) (by decide), h.ubits (n := 11) (by decide) (by decide)]
  split_ifs
  · exact hfound _ (h5 _) _
  · exact hfound _ (h11 _) _
  · exact hfound 11 (Nat.le_refl 11) _
  · exact hfound 11 (Nat.le_refl 11) _
  · exact h.agree rfl

theorem Near.getMotionDelta (h : Near data p limit 32 io r) :
    Agree data p limit (fifos.getMotionDelta io) ((whole data).getMotionDelta r) := by
  have h4 : ∀ i, (lookup MV_4 i).len ≤ 10 := lookup_len_le (by decide)
  have h10 : ∀ i, (lookup MV_10 i).len ≤ 10 := lookup_len_le (by decide)
  have hfound (tab : Vlc) (hlen : tab.len ≤ 10) :
      Near data p limit 1 (fifos.advance io tab.len) ((whole data).advance r tab.len) :=
    (h.advance (by decide) (by omega)).le (by omega)
  have hsign (tab : Vlc) (hlen : tab.len ≤ 10) :=
    (hfound tab hlen).sbits (Nat.le_refl 1) (Nat.le_refl 1) (by decide)
  have hdone (tab : Vlc) (hlen : tab.len ≤ 10) :=
    (hfound tab hlen).advance (by decide) (Nat.le_refl 1)
  simp only [Port.getMotionDelta, h.ubits (n := 16) (by decide) (by decide),
    h.ubits (n := 4) (by decide) (by decide), h.ubits (n := 10) (by decide) (by decide)]
  split_ifs
  · exact (h.advance (by decide) (by decide)).agree rfl
  · rw [hsign _ (h4 _)]
    exact (hdone _ (h4 _)).agree rfl
  · rw [hsign _ (h10 _)]
    exact (hdone _ (h10 _)).agree rfl

theorem Near.getDmv (h : Near data p limit 32 io r) :
    Agree data p limit (fifos.getDmv io) ((whole data).getDmv r) := by
  have hlen : ∀ i, (lookup DMV_2 i).len ≤ 2 := lookup_len_le (by decide)
  simp only [Port.getDmv, h.ubits (n := 2) (by decide) (by decide)]
  exact (h.advance (by decide) (Nat.le_trans (hlen _) (by decide))).agree rfl

theorem Near.afterType (h : Near data p limit 32 io r) {tab : List Vlc} (htab : ∀ v ∈ tab, v.len ≤ 6)
    (i : BitVec 32) :
    Near data p limit 26 (fifos.advance io (lookup tab i).len)
      ((whole data).advance r (lookup tab i).len) := by
  have hlen := lookup_len_le htab i
  exact (h.advance (by decide) (Nat.le_trans hlen (by decide))).le (by omega)

theorem Near.getMacroblockModes (h : Near data p limit 32 io r) (codingType : BitVec 3)
    (framePredFrameDct : Bool) (pictureStructure : Nat) :
    Agree data p limit (fifos.getMacroblockModes codingType framePredFrameDct pictureStructure io)
      ((whole data).getMacroblockModes codingType framePredFrameDct pictureStructure r) := by
  unfold Port.getMacroblockModes
  match codingType.toNat with
  | 0 => exact h.agree rfl
  | 1 =>
    have htype := h.afterType (by decide : ∀ v ∈ MB_I, v.len ≤ 6) ((whole data).ubits r 2 >>> 1)
    simp only [Port.getbits, h.ubits (n := 2) (by decide) (by decide)]
    generalize lookup MB_I ((whole data).ubits r 2 >>> 1) = tab at htype ⊢
    rw [htype.ubits (n := 1) (by decide) (by decide)]
    have hdct := htype.advance (n := 1) (by decide) (by decide)
    exact .ite (h.agree rfl) (.ite (hdct.agree rfl) (htype.agree rfl))
  | 2 =>
    have htype := h.afterType (by decide : ∀ v ∈ MB_P, v.len ≤ 6) ((whole data).ubits r 6 >>> 1)
    simp only [Port.getbits, h.ubits (n := 6) (by decide) (by decide)]
    generalize lookup MB_P ((whole data).ubits r 6 >>> 1) = tab at htype ⊢
    have hmotion := htype.advance (n := 2) (by decide) (by decide)
    have hdct := htype.advance (n := 1) (by decide) (by decide)
    have hboth := hmotion.advance (n := 1) (by decide) (by decide)
    have hmotionDct := hmotion.ubits (n := 1) (by decide) (by decide)
    have htypeDct := htype.ubits (n := 1) (by decide) (by decide)
    rw [htype.ubits (n := 2) (by decide) (by decide)]
    refine .ite (h.agree rfl) (.ite (.ite (hmotion.agree rfl) (htype.agree rfl))
      (.ite (.ite (htype.agree rfl) (htype.agree rfl)) ?_))
    by_cases hforward : tab.value &&& 8 ≠ 0
    · simp only [if_pos hforward]
      exact .ite (hboth.agree (congrArg (_ ||| · * 32) hmotionDct)) (hmotion.agree rfl)
    · simp only [if_neg hforward]
      exact .ite (hdct.agree (congrArg (_ ||| · * 32) htypeDct)) (htype.agree rfl)
  | 3 =>
    have htype := h.afterType (by decide : ∀ v ∈ MB_B, v.len ≤ 6) ((whole data).ubits r 6)
    simp only [Port.getbits, h.ubits (n := 6) (by decide) (by decide)]
    generalize lookup MB_B ((whole data).ubits r 6) = tab at htype ⊢
    have hmotion := htype.advance (n := 2) (by decide) (by decide)
    have hdct := htype.advance (n := 1) (by decide) (by decide)
    have hboth := hmotion.advance (n := 1) (by decide) (by decide)
    have hmotionDct := hmotion.ubits (n := 1) (by decide) (by decide)
    have htypeDct := htype.ubits (n := 1) (by decide) (by decide)
    rw [htype.ubits (n := 2) (by decide) (by decide)]
    refine .ite (h.agree rfl) (.ite (.ite (hmotion.agree rfl) (htype.agree rfl))
      (.ite (htype.agree rfl) ?_))
    by_cases hintra : tab.value &&& 1 = 0
    · simp only [if_pos hintra]
      exact .ite (hboth.agree (congrArg (_ ||| · * 32 ||| _) hmotionDct))
        (hmotion.agree rfl)
    · simp only [if_neg hintra]
      exact .ite (hdct.agree (congrArg (_ ||| · * 32 ||| _) htypeDct))
        (htype.agree rfl)
  | 4 =>
    obtain ⟨hmodes, hnext⟩ := h.getbits (n := 1) (by decide) (by decide) (by decide)
    generalize fifos.getbits io 1 = x at hmodes hnext ⊢
    generalize (whole data).getbits r 1 = y at hmodes hnext ⊢
    obtain ⟨io', modes⟩ := x
    obtain ⟨r', modes'⟩ := y
    obtain rfl : modes = modes' := hmodes
    dsimp only
    exact .ite ⟨rfl, hnext⟩ ⟨rfl, hnext⟩
  | _ + 5 => exact h.agree rfl

end Codes

end OmegaRed.IPU
