import OmegaRed.Gif.Path

/-! What one round of `ExecuteGSPacket` does to the positions of a path. -/

namespace OmegaRed.Gif

variable {σ : Type} {handlerAD : List UInt8 → σ → Bool × σ} {stat : Stat}

/-- The packet being assembled ends at the parser's position, inside the data. -/
structure Placed (p : GifPath) : Prop where
  packet : p.gsPack.offset + p.gsPack.size = p.curOffset
  inData : p.curOffset ≤ p.curSize

/-- The parser only moves forward over the data. -/
structure Advances (p q : GifPath) : Prop where
  readAmount : q.readAmount = p.readAmount
  buffer : q.buffer = p.buffer
  curSize : q.curSize = p.curSize
  offset : q.gsPack.offset = p.gsPack.offset
  size : p.gsPack.size ≤ q.gsPack.size
  placed : Placed q

theorem Placed.base {p : GifPath} (h : Placed p) : p.base = p.gsPack.offset := by
  have := h.packet
  simp only [GifPath.base]
  omega

theorem Placed.advances {p : GifPath} (h : Placed p) : Advances p p :=
  ⟨rfl, rfl, rfl, rfl, Nat.le_refl _, h⟩

theorem Advances.trans {p q r : GifPath} (h : Advances p q) (h' : Advances q r) : Advances p r where
  readAmount := h'.readAmount.trans h.readAmount
  buffer := h'.buffer.trans h.buffer
  curSize := h'.curSize.trans h.curSize
  offset := h'.offset.trans h.offset
  size := h.size.trans h'.size
  placed := h'.placed

theorem Placed.incTag {p : GifPath} (h : Placed p) {n : Nat} (hn : p.curOffset + n ≤ p.curSize)
    (gifTag : GifTag) (state : GifPathState) :
    Advances p { p.incTag n with gifTag := gifTag, state := state } where
  readAmount := rfl
  buffer := rfl
  curSize := rfl
  offset := rfl
  size := Nat.le_add_right _ _
  placed := by
    refine ⟨?_, hn⟩
    simp only [GifPath.incTag, ← h.packet, Nat.add_assoc]

@[simp] theorem GifTag.hasAD_packedStep (t : GifTag) : t.packedStep.hasAD = t.hasAD := by
  rw [packedStep]
  split
  · split <;> rfl
  · rfl

@[simp] theorem GifTag.isValid_packedStep (t : GifTag) : t.packedStep.isValid = t.isValid := by
  rw [packedStep]
  split
  · split <;> rfl
  · rfl

@[simp] theorem GifTag.tag_packedStep (t : GifTag) : t.packedStep.tag = t.tag := by
  rw [packedStep]
  split
  · split <;> rfl
  · rfl

theorem adLoop_advances (handlerAD : List UInt8 → σ → Bool × σ) {p : GifPath} (g : σ)
    (h : Placed p) :
    Advances p (adLoop handlerAD p g).2.1 ∧
      (adLoop handlerAD p g).2.1.gifTag.hasAD = p.gifTag.hasAD ∧
      (adLoop handlerAD p g).2.1.gifTag.isValid = p.gifTag.isValid := by
  fun_induction adLoop handlerAD p g with
  | case1 p g hloop => exact ⟨h.advances, rfl, rfl⟩
  | case2 p g hloop hsize => exact ⟨h.advances, rfl, rfl⟩
  | case3 p g hloop hsize g' p' hg =>
    exact ⟨h.incTag (by omega) _ _, by simp [p'], by simp [p']⟩
  | case4 p g hloop hsize dbl g' hg p' hdbl ih =>
    have hadv : Advances p p' := h.incTag (by omega) _ _
    obtain ⟨hrest, hAD, hvalid⟩ := ih hadv.placed
    refine ⟨hadv.trans hrest, ?_, ?_⟩
    · rw [hAD]
      simp [p']
    · rw [hvalid]
      simp [p']

/-- How a round of `ExecuteGSPacket` from `p` may end. -/
def Exec.Ok (p : GifPath) : Exec σ → Prop
  | .again q _ => Advances p q ∧ q.gifTag.isValid = false
  | .realign q _ => q = p ∧ q.gifTag.isValid = false ∧ q.curOffset + 16 ≤ q.curSize
  | .exit q _ => Advances p q ∧
      (q.gifTag.isValid = true → q.gifTag.hasAD = true ∧ 0 < q.gsPack.size)
  | .done q _ pack => q.readAmount = p.readAmount ∧ q.buffer = p.buffer ∧
      pack.offset = p.gsPack.offset ∧ 0 < pack.size ∧
      q.gsPack = ⟨pack.offset + pack.size, 0⟩ ∧ q.curOffset = pack.offset + pack.size ∧
      q.curOffset ≤ q.curSize ∧ q.curSize ≤ p.curSize ∧ q.gifTag.isValid = false

theorem Exec.Ok.of_advances {p q : GifPath} {e : Exec σ} (h : Advances p q) (he : e.Ok q)
    (hr : ∀ r g, e ≠ .realign r g) : e.Ok p := by
  cases e with
  | again r g => exact ⟨h.trans he.1, he.2⟩
  | realign r g => exact absurd rfl (hr r g)
  | exit r g => exact ⟨h.trans he.1, he.2⟩
  | done r g pack =>
    obtain ⟨hread, hbuf, hoff, hpos, hpack, hcur, hle, hsize, hvalid⟩ := he
    exact ⟨hread.trans h.readAmount, hbuf.trans h.buffer, hoff.trans h.offset, hpos, hpack, hcur,
      hle, hsize.trans (Nat.le_of_eq h.curSize), hvalid⟩

theorem endTag_ok {p : GifPath} (g : σ) (h : Placed p) (hsize : 0 < p.gsPack.size) :
    (endTag stat p g).Ok p := by
  have hpk := h.packet
  have hin := h.inData
  rw [endTag]
  dsimp only
  split
  · split
    · split
      · exact ⟨rfl, rfl, rfl, hsize, by rw [hpk], hpk.symm, Nat.le_refl _, hin, rfl⟩
      · exact ⟨rfl, rfl, rfl, hsize, by rw [hpk], hpk.symm, hin, Nat.le_refl _, rfl⟩
    · exact ⟨rfl, rfl, rfl, hsize, by rw [hpk], hpk.symm, hin, Nat.le_refl _, rfl⟩
  · exact ⟨⟨rfl, rfl, rfl, rfl, Nat.le_refl _, h.packet, h.inData⟩, rfl⟩

theorem endTag_ne_realign (p : GifPath) (g : σ) (r : GifPath) (g' : σ) :
    endTag stat p g ≠ .realign r g' := by
  rw [endTag]
  dsimp only
  split
  · split
    · split <;> exact fun h => by cases h
    · exact fun h => by cases h
  · exact fun h => by cases h

theorem processData_ok {p : GifPath} (g : σ) (h : Placed p) (hsize : 0 < p.gsPack.size)
    (hlen : p.gifTag.hasAD = false → p.curOffset + p.gifTag.len ≤ p.curSize) :
    (processData handlerAD stat p g).Ok p := by
  rw [processData]
  by_cases hAD : p.gifTag.hasAD
  · rw [if_pos hAD]
    obtain ⟨hadv, hAD', -⟩ := adLoop_advances handlerAD g h
    have hpos : 0 < (adLoop handlerAD p g).2.1.gsPack.size := hsize.trans_le hadv.size
    have hend : (endTag stat (adLoop handlerAD p g).2.1 (adLoop handlerAD p g).2.2).Ok p :=
      (endTag_ok _ hadv.placed hpos).of_advances hadv (endTag_ne_realign _ _)
    have hexit : (Exec.exit (adLoop handlerAD p g).2.1 (adLoop handlerAD p g).2.2).Ok p :=
      ⟨hadv, fun _ => ⟨hAD'.trans hAD, hpos⟩⟩
    generalize adLoop handlerAD p g = r at *
    obtain ⟨exit, q, g'⟩ := r
    cases exit with
    | early => exact hexit
    | stalled =>
      dsimp only
      split
      · exact hend
      · exact hexit
    | finished => exact hend
  · rw [if_neg hAD]
    have hAD : p.gifTag.hasAD = false := by simpa using hAD
    have hadv : Advances p (p.incTag p.gifTag.len) := h.incTag (hlen hAD) p.gifTag p.state
    exact (endTag_ok g hadv.placed (hsize.trans_le hadv.size)).of_advances hadv
      (endTag_ne_realign _ _)

theorem processData_ne_realign (p : GifPath) (g : σ) (r : GifPath) (g' : σ) :
    processData handlerAD stat p g ≠ .realign r g' := by
  rw [processData]
  split
  · split
    · exact fun h => by cases h
    · split
      · exact endTag_ne_realign _ _ _ _
      · exact fun h => by cases h
    · exact endTag_ne_realign _ _ _ _
  · exact endTag_ne_realign _ _ _ _

theorem loadTag_ok {p : GifPath} (g : σ) (h : Placed p) (hsize : p.curOffset + 16 ≤ p.curSize) :
    (loadTag handlerAD stat p g).Ok p := by
  rw [loadTag]
  dsimp only
  split
  · refine ⟨⟨rfl, rfl, rfl, rfl, Nat.le_refl _, h.packet, h.inData⟩, ?_⟩
    simp
  · rename_i hlen
    have hadv : Advances p (p.setTag.incTag 16) := h.incTag hsize _ _
    refine (processData_ok g hadv.placed (Nat.lt_add_left _ (by decide)) ?_).of_advances hadv
      (processData_ne_realign _ _)
    intro hAD
    change p.setTag.gifTag.hasAD = false at hAD
    simp only [hAD, Bool.not_false, Bool.true_and, decide_eq_true_eq] at hlen
    exact Nat.le_of_not_lt hlen

theorem loadTag_ne_realign (p : GifPath) (g : σ) (r : GifPath) (g' : σ) :
    loadTag handlerAD stat p g ≠ .realign r g' := by
  rw [loadTag]
  dsimp only
  split
  · exact fun h => by cases h
  · exact processData_ne_realign _ _ _ _

theorem executeGSPacket_ok {p : GifPath} (g : σ) (h : Placed p)
    (hvalid : p.gifTag.isValid = true → p.gifTag.hasAD = true ∧ 0 < p.gsPack.size) :
    (executeGSPacket handlerAD stat p g).Ok p := by
  rw [executeGSPacket]
  by_cases hv : p.gifTag.isValid
  · rw [if_neg (by simp [hv])]
    obtain ⟨hAD, hsize⟩ := hvalid hv
    exact processData_ok g h hsize (fun hnot => by simp [hAD] at hnot)
  · have hv : p.gifTag.isValid = false := by simpa using hv
    rw [if_pos (by simp [hv])]
    split
    · exact ⟨h.advances, fun hnot => by simp [hv] at hnot⟩
    · split
      · exact ⟨rfl, hv, by omega⟩
      · exact loadTag_ok g h (by omega)

theorem Advances.curOffset_le {p q : GifPath} (h : Advances p q) (hp : Placed p) :
    p.curOffset ≤ q.curOffset := by
  have := h.offset
  have := h.size
  have := hp.packet
  have := h.placed.packet
  omega

/-- A round that does not end the call gets further in the data. -/
def Exec.Moves (p : GifPath) : Exec σ → Prop
  | .again q _ | .done q _ _ => p.curOffset < q.curOffset
  | .realign _ _ | .exit _ _ => True

theorem endTag_moves {p q : GifPath} (g : σ) (h : p.curOffset < q.curOffset) :
    (endTag stat q g).Moves p := by
  rw [endTag]
  dsimp only
  split
  · split
    · split <;> exact h
    · exact h
  · exact h

theorem adLoop_moves (handlerAD : List UInt8 → σ → Bool × σ) {p : GifPath} (g : σ)
    (hp : Placed p) (hloop : p.gifTag.nLoop ≠ 0) (hsize : p.curOffset + 16 ≤ p.curSize) :
    p.curOffset < (adLoop handlerAD p g).2.1.curOffset := by
  have hadv := hp.incTag hsize p.gifTag.packedStep p.state
  have hrest (g' : σ) :=
    (adLoop_advances handlerAD g' hadv.placed).1.curOffset_le hadv.placed
  have hlt : p.curOffset < p.curOffset + 16 := by omega
  rw [adLoop, if_neg hloop, if_neg (by omega)]
  generalize (if p.gifTag.curReg = gifRegAD then _ else _) = res
  obtain ⟨dblSIGNAL, g'⟩ := res
  cases dblSIGNAL with
  | true => exact hlt
  | false => exact hlt.trans_le (hrest g')

theorem processData_moves {p : GifPath} (g : σ) (hp : Placed p) (hAD : p.gifTag.hasAD = true)
    (hloop : p.gifTag.nLoop ≠ 0) : (processData handlerAD stat p g).Moves p := by
  rw [processData, if_pos hAD]
  by_cases hsize : p.curOffset + 16 ≤ p.curSize
  · have hmoves := adLoop_moves handlerAD g hp hloop hsize
    generalize adLoop handlerAD p g = r at *
    obtain ⟨exit, q, g'⟩ := r
    cases exit with
    | early => trivial
    | stalled =>
      dsimp only
      split
      · exact endTag_moves g' hmoves
      · trivial
    | finished => exact endTag_moves g' hmoves
  · rw [adLoop, if_neg hloop, if_pos (by omega)]
    trivial

theorem loadTag_moves {p : GifPath} (g : σ) (hp : Placed p) (hsize : p.curOffset + 16 ≤ p.curSize) :
    (loadTag handlerAD stat p g).Moves p := by
  have hadv : Advances p (p.setTag.incTag 16) := hp.incTag hsize _ _
  have hlt : p.curOffset < (p.setTag.incTag 16).curOffset := Nat.lt_add_of_pos_right (by decide)
  rw [loadTag]
  dsimp only
  split
  · trivial
  · rw [processData]
    split
    · have hle := (adLoop_advances handlerAD g hadv.placed).1.curOffset_le hadv.placed
      generalize adLoop handlerAD (p.setTag.incTag 16) g = r at *
      obtain ⟨exit, q, g'⟩ := r
      have hmoves : p.curOffset < q.curOffset := hlt.trans_le hle
      cases exit with
      | early => trivial
      | stalled =>
        dsimp only
        split
        · exact endTag_moves g' hmoves
        · trivial
      | finished => exact endTag_moves g' hmoves
    · exact endTag_moves g (hlt.trans_le (Nat.le_add_right _ _))

theorem executeGSPacket_moves {p : GifPath} (g : σ) (hp : Placed p)
    (hvalid : p.gifTag.isValid = true → p.gifTag.hasAD = true ∧ p.gifTag.nLoop ≠ 0) :
    (executeGSPacket handlerAD stat p g).Moves p := by
  rw [executeGSPacket]
  split
  · split
    · trivial
    · split
      · trivial
      · exact loadTag_moves g hp (by omega)
  · rename_i hv
    obtain ⟨hAD, hloop⟩ := hvalid (by simpa using hv)
    exact processData_moves g hp hAD hloop

theorem executeGSPacket_of_le {p : GifPath} (g : σ) (hvalid : p.gifTag.isValid = false)
    (hlimit : p.curOffset ≤ buffLimit) (hAD : p.setTag.gifTag.hasAD = false)
    (hlen : p.curOffset + 16 + p.setTag.gifTag.len ≤ p.curSize) :
    executeGSPacket handlerAD stat p g =
      endTag stat ((p.setTag.incTag 16).incTag p.setTag.gifTag.len) g := by
  rw [executeGSPacket, if_pos (by simp [hvalid]), if_neg (by omega), if_neg (by omega), loadTag]
  dsimp only
  rw [if_neg, processData, if_neg]
  · rfl
  · simp [GifPath.incTag, hAD]
  · simp only [hAD, Bool.not_false, Bool.true_and, decide_eq_true_eq]
    exact Nat.not_lt.mpr hlen

theorem executeGSPacket_of_lt {p : GifPath} (g : σ) (hvalid : p.gifTag.isValid = false)
    (hlimit : p.curOffset ≤ buffLimit) (hAD : p.setTag.gifTag.hasAD = false)
    (hsize : p.curOffset + 16 ≤ p.curSize)
    (hlen : p.curSize < p.curOffset + 16 + p.setTag.gifTag.len) :
    executeGSPacket handlerAD stat p g =
      .exit { p.setTag with gifTag := { p.setTag.gifTag with isValid := false } } g := by
  rw [executeGSPacket, if_pos (by simp [hvalid]), if_neg (by omega), if_neg (by omega), loadTag]
  dsimp only
  rw [if_pos]
  simp only [hAD, Bool.not_false, Bool.true_and]
  exact decide_eq_true hlen

end OmegaRed.Gif
