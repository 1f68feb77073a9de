import OmegaRed.Gif.Progress

/-! What is handed over and what is called do not depend on how a stream is cut. -/

namespace OmegaRed.Gif

open Lib.Memory Lib.Run Relation

variable {S : List UInt8} {σ : Type} {handlerAD : List UInt8 → σ → Bool × σ} {stat : Stat}

/-- A packed tag with one A+D word, and the word: PRIM is set to 7. -/
def primTag : List UInt8 := [1, 0x80, 0, 0, 0, 0, 0, 0x10, 0x0e] ++ List.replicate 7 0

def primData : List UInt8 := 7 :: List.replicate 15 0

theorem tagAt_primTag : (tagAt (primTag ++ primData) 0).len = 16 := by
  decide

theorem adCalls_primTag : adCalls (primTag ++ primData) 0 = [primData] := by
  rw [adCalls, if_neg (by decide), tagAt_primTag, if_neg (by decide), adCalls, if_pos (by decide)]
  decide

/-- A path that has handled an empty primitive. -/
def GifPath.skipTag (p : GifPath) : GifPath :=
  { p.setTag.incTag 16 with gifTag := { p.setTag.gifTag with isValid := false } }

/-- A path that waits for the rest of a primitive. -/
def GifPath.giveUp (p : GifPath) : GifPath :=
  { p.setTag with gifTag := { p.setTag.gifTag with isValid := false } }

theorem executeGSPacket_empty {p : GifPath} (g : σ) (hvalid : p.gifTag.isValid = false)
    (hsize : p.curOffset + 16 ≤ p.curSize) (hlimit : p.curOffset ≤ buffLimit)
    (hAD : p.setTag.gifTag.hasAD = false) (hlen : p.setTag.gifTag.len = 0)
    (heop : p.setTag.gifTag.tag.eop = false) :
    executeGSPacket handlerAD stat p g = .again p.skipTag g := by
  rw [executeGSPacket_of_le g hvalid hlimit hAD (hlen ▸ hsize), hlen, endTag, if_neg]
  · rfl
  · simp [GifPath.incTag, heop]

theorem executeGSPacket_end {p : GifPath} (g : σ) (hvalid : p.gifTag.isValid = false)
    (hsize : p.curSize < p.curOffset + 16) : executeGSPacket handlerAD stat p g = .exit p g := by
  rw [executeGSPacket, if_pos (by simp [hvalid]), if_pos (by omega)]

theorem reaches_of_copy {P : Run → Prop} {r : Run} {data : List UInt8}
    {chunks : List (List UInt8)} (hdriver : r.driver = .feed (data :: chunks))
    (hee : r.path.ee = .idle) (hsize : r.path.path.curSize + data.length ≤ buffSize)
    (hready : r.path.path.copyReady data.length)
    (h : ∃ u, ReflTransGen RunStep ⟨.executed chunks, { r.path with
      path := r.path.path.append data, ee := .execute, done := false }⟩ u ∧ P u) :
    ∃ u, ReflTransGen RunStep r u ∧ P u := by
  have hcall : r.path.call (.copyGSPacketData data) = { r.path with ee := .wait data } := by
    simp only [State.call, if_neg (Nat.not_lt.mpr hsize)]
  refine reaches_of_step (.copy r data chunks hdriver hee) ?_
  rw [hcall]
  refine reaches_of_step (.internal _ _ (.wait _ data rfl hready)) ?_
  refine reaches_of_step (.internal _ _ (.memcpy _ data rfl hsize)) ?_
  exact reaches_of_step (.execute _ chunks rfl rfl) h

theorem reaches_of_execute {P : Run → Prop} {r : Run} (hee : r.path.ee = .execute)
    {e : Exec (GSRegs × List (List UInt8))}
    (he : executeGSPacket logged ⟨false, false⟩ r.path.path r.path.regs = e)
    (h : ∃ u, ReflTransGen RunStep { r with path := r.path.afterExec e } u ∧ P u) :
    ∃ u, ReflTransGen RunStep r u ∧ P u :=
  reaches_of_step (.internal _ _ (.execute _ ⟨false, false⟩ hee rfl)) (he ▸ h)

theorem GifTag.eop_setTag (t : GifTag) (m : Nat → UInt8) (a : Nat) :
    (t.setTag m a).tag.eop = (HWGifTag.read m a).eop := by
  simp only [setTag]
  split <;> rfl

theorem GifPath.setTag_append {p : GifPath} (h : p.curOffset = p.curSize) (l tl : List UInt8)
    (hl : l.length = 16) :
    (p.append (l ++ tl)).setTag.gifTag.hasAD = (tagAt l 0).hasAD ∧
      (p.append (l ++ tl)).setTag.gifTag.len = (tagAt l 0).len ∧
      (p.append (l ++ tl)).setTag.gifTag.tag.eop = (tagAt l 0).tag.eop := by
  have hload : load (p.append (l ++ tl)).buffer p.curOffset 16 = load (view l) 0 16 := by
    rw [load_ext_iff]
    intro i hi
    have hi : i < l.length := hl ▸ hi
    rw [Nat.zero_add, view, List.getD, List.getElem?_eq_getElem hi, h]
    exact store_of_mem _ (by rw [List.getElem?_append_left hi, List.getElem?_eq_getElem hi]; rfl)
  obtain ⟨hAD, hlen, -⟩ := GifTag.setTag_congr p.gifTag .reset hload
  refine ⟨hAD, hlen, ?_⟩
  rw [tagAt, GifTag.eop_setTag, ← HWGifTag.read_congr hload]
  exact GifTag.eop_setTag _ _ _

def emptyTag : List UInt8 := List.replicate 16 0

/-- A packed tag that announces 256 bytes of data. -/
def loopTag : List UInt8 := 1 :: List.replicate 15 0

theorem append_emptyTag {p : GifPath} (h : p.curOffset = p.curSize) (tl : List UInt8) :
    (p.append (emptyTag ++ tl)).setTag.gifTag.hasAD = false ∧
      (p.append (emptyTag ++ tl)).setTag.gifTag.len = 0 ∧
      (p.append (emptyTag ++ tl)).setTag.gifTag.tag.eop = false := by
  obtain ⟨hAD, hlen, heop⟩ := GifPath.setTag_append h emptyTag tl rfl
  exact ⟨hAD.trans (by decide), hlen.trans (by decide), heop.trans (by decide)⟩

theorem append_loopTag {p : GifPath} (h : p.curOffset = p.curSize) (tl : List UInt8) :
    (p.append (loopTag ++ tl)).setTag.gifTag.hasAD = false ∧
      (p.append (loopTag ++ tl)).setTag.gifTag.len = 256 := by
  obtain ⟨hAD, hlen, -⟩ := GifPath.setTag_append h loopTag tl rfl
  exact ⟨hAD.trans (by decide), hlen.trans (by decide)⟩

theorem exists_run_cut (regs : GSRegs) :
    ∃ r, ReflTransGen RunStep (.init [emptyTag, loopTag] (fun _ => 0) regs) r ∧ r.Finished ∧
      r.path.sent = emptyTag := by
  have hsize : 0 + 16 ≤ buffSize := by decide
  have hsize' : 16 + 16 ≤ buffSize := by decide
  have hlimit : 16 ≤ buffLimit := by decide
  let p₀ : GifPath := .reset fun _ => 0
  let p₁ := (p₀.append (emptyTag ++ [])).skipTag
  let p₂ := p₁.afterFlush.fetchAdd 16
  let g : GSRegs × List (List UInt8) := (regs, [])
  have hround₁ : executeGSPacket logged ⟨false, false⟩ (p₀.append (emptyTag ++ [])) g =
      .again p₁ g := by
    obtain ⟨hAD, hlen, heop⟩ := append_emptyTag (p := p₀) rfl []
    exact executeGSPacket_empty _ rfl (Nat.le_refl 16) (Nat.zero_le _) hAD hlen heop
  have hround₂ : executeGSPacket logged ⟨false, false⟩ p₁ g = .exit p₁ g :=
    executeGSPacket_end _ rfl (by decide : 16 < 16 + 16)
  have hround₃ : executeGSPacket logged ⟨false, false⟩ (p₂.append (loopTag ++ [])) g =
      .exit (p₂.append (loopTag ++ [])).giveUp g := by
    obtain ⟨hAD, hlen⟩ := append_loopTag (p := p₂) rfl []
    refine executeGSPacket_of_lt _ rfl hlimit hAD (Nat.le_refl 32) ?_
    rw [hlen]
    exact (by decide : 32 < 16 + 16 + 256)
  refine reaches_of_copy rfl rfl hsize rfl ?_
  refine reaches_of_execute rfl hround₁ ?_
  refine reaches_of_execute rfl hround₂ ?_
  refine reaches_of_step (.arbitrate _ _ rfl rfl) ?_
  refine reaches_of_step (.internal _ _ (.add _ ⟨0, 16⟩ rfl)) ?_
  refine reaches_of_step (.internal _ _ (.send _ ⟨0, 16⟩ rfl)) ?_
  refine reaches_of_copy rfl rfl hsize' rfl ?_
  refine reaches_of_execute rfl hround₃ ?_
  refine reaches_of_step (.arbitrate _ _ rfl rfl) ?_
  exact ⟨_, .refl, ⟨rfl, rfl⟩, rfl⟩

theorem exists_run_whole (regs : GSRegs) :
    ∃ r, ReflTransGen RunStep (.init [emptyTag ++ loopTag] (fun _ => 0) regs) r ∧ r.Finished ∧
      r.path.sent = [] := by
  have hsize : 0 + 32 ≤ buffSize := by decide
  have hlimit : 16 ≤ buffLimit := by decide
  let p₀ : GifPath := .reset fun _ => 0
  let p₁ := (p₀.append (emptyTag ++ loopTag)).skipTag
  let g : GSRegs × List (List UInt8) := (regs, [])
  have hround₁ : executeGSPacket logged ⟨false, false⟩ (p₀.append (emptyTag ++ loopTag)) g =
      .again p₁ g := by
    obtain ⟨hAD, hlen, heop⟩ := append_emptyTag (p := p₀) rfl loopTag
    exact executeGSPacket_empty _ rfl (by decide : 0 + 16 ≤ 32) (Nat.zero_le _) hAD hlen heop
  have hround₂ : executeGSPacket logged ⟨false, false⟩ p₁ g = .exit p₁.giveUp g := by
    obtain ⟨hAD, hlen⟩ : p₁.setTag.gifTag.hasAD = false ∧ p₁.setTag.gifTag.len = 256 := by
      decide
    refine executeGSPacket_of_lt _ rfl hlimit hAD (Nat.le_refl 32) ?_
    rw [hlen]
    exact (by decide : 32 < 16 + 16 + 256)
  refine reaches_of_copy rfl rfl hsize rfl ?_
  refine reaches_of_execute rfl hround₁ ?_
  refine reaches_of_execute rfl hround₂ ?_
  refine reaches_of_step (.arbitrate _ _ rfl rfl) ?_
  exact ⟨_, .refl, ⟨rfl, rfl⟩, rfl⟩

/-- The chunk waits to be copied. -/
def Waits (data : List UInt8) (s : State σ) : Prop := s.ee.stage = .copying ∧ s.ee.data = data

theorem Waits.internal {stats : Stat → Prop} {data : List UInt8} {s t : State σ}
    (h : Waits data s) (hlarge : buffSize < data.length) (hst : Internal handlerAD stats s t) :
    Waits data t := by
  obtain ⟨hstage, hdata⟩ := h
  cases hst with
  | realign k hee hready =>
    rw [hee] at hstage hdata
    rw [Waits]
    dsimp only
    split <;> exact ⟨hstage, hdata⟩
  | addBlank k size hee =>
    rw [hee] at hstage hdata
    exact ⟨hstage, hdata⟩
  | sendBlank k size hee =>
    rw [hee] at hstage hdata
    exact ⟨hstage, hdata⟩
  | move k hee =>
    rw [hee] at hstage hdata
    cases k with
    | copy data' => exact ⟨rfl, hdata⟩
    | tag => cases hstage
  | wait data' hee hready =>
    rw [hee] at hdata
    exact ⟨rfl, hdata⟩
  | memcpy data' hee hsize =>
    rw [hee] at hdata
    obtain rfl : data' = data := hdata
    omega
  | execute stat hee hstat =>
    rw [hee] at hstage
    cases hstage
  | loadTag stat hee hstat =>
    rw [hee] at hstage
    cases hstage
  | add pack hee =>
    rw [hee] at hstage
    cases hstage
  | send pack hee =>
    rw [hee] at hstage
    cases hstage
  | consume e queue hgs hqueue => exact ⟨hstage, hdata⟩
  | fetchSub e hgs => exact ⟨hstage, hdata⟩

theorem not_finished_of_large {data : List UInt8} (hlarge : buffSize < data.length)
    {buffer : Nat → UInt8} {regs : GSRegs} {r : Run}
    (h : ReflTransGen RunStep (.init [data] buffer regs) r) : ¬ r.Finished := by
  have hinv : r.driver = .feed [data] ∨ r.driver = .execute [] ∧ Waits data r.path := by
    induction h with
    | refl => exact .inl rfl
    | tail _ hst ih =>
      obtain hfeed | ⟨hexec, hwaits⟩ := ih
      · cases hst with
        | copy data' chunks hdriver hee =>
          obtain ⟨rfl, rfl⟩ := List.cons.inj (Driver.feed.inj (hfeed.symm.trans hdriver))
          refine .inr ⟨rfl, ?_⟩
          simp only [Waits, State.call]
          split <;> exact ⟨rfl, rfl⟩
        | execute chunks hdriver hee => exact absurd (hfeed.symm.trans hdriver) (by simp)
        | arbitrate chunks hdriver hee => exact absurd (hfeed.symm.trans hdriver) (by simp)
        | internal t hst => exact .inl hfeed
      · cases hst with
        | copy data' chunks hdriver hee => exact absurd (hexec.symm.trans hdriver) (by simp)
        | execute chunks hdriver hee => exact absurd (hee ▸ hwaits.1) (by simp [Phase.stage])
        | arbitrate chunks hdriver hee => exact absurd (hexec.symm.trans hdriver) (by simp)
        | internal t hst => exact .inr ⟨hexec, hwaits.internal hlarge hst⟩
  rintro ⟨hfin, -⟩
  obtain hfeed | ⟨hexec, -⟩ := hinv
  · exact absurd (hfeed.symm.trans hfin) (by simp)
  · exact absurd (hexec.symm.trans hfin) (by simp)

theorem view_replicate_zero (n : Nat) : view (List.replicate n 0) = fun _ => 0 := by
  funext i
  by_cases hi : i < n
  · rw [view, List.getD, List.getElem?_replicate, if_pos hi]
    rfl
  · rw [view, List.getD, List.getElem?_replicate, if_neg hi]
    rfl

theorem replicate_zero {n pos : Nat} (hpos : pos ≤ n) (hdvd : 16 ∣ n - pos) :
    lastEnd (List.replicate n 0) pos = n ∧ adCalls (List.replicate n 0) pos = [] := by
  have hload : load (fun _ => (0 : UInt8)) pos 16 = load (fun _ => 0) 0 16 := rfl
  obtain ⟨hAD, hlen, -⟩ := GifTag.setTag_congr .reset .reset hload
  have hlen : (tagAt (List.replicate n 0) pos).len = 0 := by
    rw [tagAt, view_replicate_zero, hlen]
    decide
  have hAD : (tagAt (List.replicate n 0) pos).hasAD = false := by
    rw [tagAt, view_replicate_zero, hAD]
    decide
  rw [lastEnd, adCalls, List.length_replicate, hlen]
  by_cases hend : n < pos + 16
  · rw [if_pos hend, if_pos hend]
    exact ⟨by omega, rfl⟩
  · rw [if_neg hend, if_neg (by omega), if_neg hend, if_neg (by omega), Nat.add_zero]
    have hdvd : 16 ∣ n - (pos + 16) := by omega
    obtain ⟨hlast, hcalls⟩ := replicate_zero (by omega) hdvd
    rw [hlast, hcalls, adWrites, if_neg (by simp [hAD])]
    exact ⟨rfl, rfl⟩
termination_by n - pos

end OmegaRed.Gif
