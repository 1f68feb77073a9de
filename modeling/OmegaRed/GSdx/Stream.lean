import OmegaRed.GSdx.Decoder

/-! `Transfer` against the decoder that takes a quadword at a time. -/

namespace OmegaRed.GSdx

variable {W : Type} {P : Plugin W} {s : State W} {d : Decoder W} {r : GIFPackedReg}
  {mem : List GIFPackedReg}

/-- The same packet, in the same place. After a packet the code's `m_q` may be another, which the
next tag sets. -/
structure Sim (s : State W) (d : Decoder W) : Prop where
  gs : s.m.gs = d.m.gs
  m_v : s.m.m_v = d.m.m_v
  EOP : s.path.tag.EOP = d.EOP
  todo : d.todo = s.path.todo
  m : 0 < s.path.nloop → s.m = d.m
  inPacket : 0 < s.path.nloop → s.path.InPacket
  fast : 0 < s.path.nloop →
    (s.path.type = .STQRGBAXYZF2 ∨ s.path.type = .STQRGBAXYZ2 ↔ d.fast = true)

namespace Sim

theorem todo_eq_nil (h : Sim s d) : d.todo = [] ↔ s.path.nloop = 0 := by
  rw [h.todo]
  constructor
  · intro htodo
    by_contra hne
    have hpos := Nat.pos_of_ne_zero hne
    have hrem := (h.inPacket hpos).remaining_eq hpos
    unfold GIFPath.todo at htodo
    split at htodo <;> simp_all
  · exact GIFPath.todo_of_done

theorem busy (h : Sim s d) (hnloop : 0 < s.path.nloop) : d.todo ≠ [] := fun htodo =>
  Nat.ne_of_gt hnloop (h.todo_eq_nil.mp htodo)

theorem stops (h : Sim s d) (index : Fin 4) :
    d.Stops index ↔ index = 0 ∧ s.path.tag.EOP ∧ s.path.nloop = 0 := by
  rw [Decoder.Stops, h.todo_eq_nil, h.EOP]

theorem tag (h : Sim s d) (hdone : s.path.nloop = 0) : Sim (s.tag P r) (d.step P r) := by
  have hstep : d.step P r = d.tag P r := by
    rw [Decoder.step, h.todo_eq_nil.mpr hdone]
  rw [hstep]
  by_cases hloop : GIFTag.NLOOP (r.extractLsb' 0 64) = 0
  · have hpath : s.path.setTag r = { s.path with tag := r.extractLsb' 0 64, nloop := 0 } := by
      rw [GIFPath.setTag, if_pos hloop]
    simp only [State.tag, hpath, Nat.lt_irrefl, if_false, gt_iff_lt, Decoder.tag, if_pos hloop]
    exact ⟨h.gs, h.m_v, rfl, (GIFPath.todo_of_done rfl).symm, nofun, nofun, nofun⟩
  · obtain ⟨htag, hnloop, -, hin, htodo, hfast⟩ : GIFPath.Tagged (s.path.setTag r) _ _ :=
      GIFPath.setTag_spec hloop
    simp only [State.tag, gt_iff_lt, hnloop, if_true, Decoder.tag, if_neg hloop, htag, h.gs, h.m_v]
    refine ⟨rfl, rfl, by rw [htag], htodo.symm, fun _ => rfl, fun _ => hin, fun _ => ?_⟩
    rw [hfast, decide_eq_true_eq]

theorem done (h : Sim s d) (hdone : s.path.nloop = 0) {path : GIFPath}
    (htag : path.tag = s.path.tag) (hnloop : path.nloop = 0) : Sim ⟨s.m, path⟩ d := by
  have hpos : ¬ 0 < path.nloop := by omega
  refine ⟨h.gs, h.m_v, ?_, ?_, fun h => absurd h hpos, fun h => absurd h hpos,
    fun h => absurd h hpos⟩
  · rw [htag]
    exact h.EOP
  · rw [h.todo_eq_nil.mpr hdone]
    exact (GIFPath.todo_of_done hnloop).symm

theorem todo_packed (h : Sim s d) (hflg : s.path.tag.FLG = .PACKED) (hnloop : 0 < s.path.nloop) :
    d.todo = .packed (s.path.getReg s.path.reg) :: s.path.stepReg.1.todo := by
  rw [h.todo, GIFPath.todo, GIFPath.todo, GIFPath.stepReg_tag, hflg,
    (h.inPacket hnloop).remaining_eq hnloop]
  rfl

theorem todo_half (h : Sim s d) (hflg : s.path.tag.FLG = .REGLIST) (hnloop : 0 < s.path.nloop) :
    d.todo = .half (s.path.getReg s.path.reg) :: s.path.stepReg.1.todo := by
  rw [h.todo, GIFPath.todo, GIFPath.todo, GIFPath.stepReg_tag, hflg,
    (h.inPacket hnloop).remaining_eq hnloop]
  rfl

theorem stepReg (h : Sim s d) (hnloop : 0 < s.path.nloop) (m : Machine W) :
    Sim ⟨m, s.path.stepReg.1⟩ { d with m := m, todo := s.path.stepReg.1.todo } := by
  have hin := h.inPacket hnloop
  refine ⟨rfl, rfl, ?_, rfl, fun _ => rfl, fun _ => hin.stepReg, fun _ => ?_⟩
  · rw [GIFPath.stepReg_tag]
    exact h.EOP
  · have htype : s.path.stepReg.1.type = s.path.type := by
      unfold GIFPath.stepReg
      split <;> rfl
    rw [htype]
    exact h.fast hnloop

theorem stepPacked (h : Sim s d) (hflg : s.path.tag.FLG = .PACKED) (hnloop : 0 < s.path.nloop) :
    Sim (s.stepPacked P r).1 (d.step P r) := by
  have hstep : d.step P r = { d with
      m := d.m.packedRegHandler P (s.path.getReg s.path.reg) r
      todo := s.path.stepReg.1.todo } := by
    rw [Decoder.step, h.todo_packed hflg hnloop]
  rw [hstep, ← h.m hnloop]
  exact h.stepReg hnloop _

end Sim

namespace State

theorem stepPacked_path : (s.stepPacked P r).1.path = s.path.stepReg.1 := rfl

theorem stepPacked_more (hnloop : 0 < s.path.nloop) :
    (s.stepPacked P r).2 = true ↔ 0 < (s.stepPacked P r).1.path.nloop :=
  GIFPath.stepReg_more hnloop

theorem stepPacked_flg : (s.stepPacked P r).1.path.tag = s.path.tag :=
  GIFPath.stepReg_tag

/-- Some quadwords are taken, as the decoder takes them. -/
def Takes (P : Plugin W) (d : Decoder W) (mem : List GIFPackedReg)
    (result : State W × List GIFPackedReg) : Prop :=
  ∃ pre d', mem = pre ++ result.2 ∧ d.Consumes P pre d' ∧ Sim result.1 d'

theorem Takes.cons {result : State W × List GIFPackedReg} (hbusy : (d.step P r).todo ≠ [])
    (h : Takes P (d.step P r) mem result) : Takes P d (r :: mem) result := by
  obtain ⟨pre, d', rfl, hpre, hsim⟩ := h
  exact ⟨r :: pre, d', rfl, .cons hbusy hpre, hsim⟩

theorem Takes.trans {result : State W × List GIFPackedReg} {pre rest : List GIFPackedReg}
    {d' : Decoder W} (h : d.Consumes P pre d') (hbusy : d'.todo ≠ [])
    (h' : Takes P d' rest result) : Takes P d (pre ++ rest) result := by
  obtain ⟨pre', d'', hmem, hpre', hsim⟩ := h'
  exact ⟨pre ++ pre', d'', by rw [hmem, List.append_assoc], h.append hbusy hpre', hsim⟩

theorem toLoopStart_takes (h : Sim s d) (hflg : s.path.tag.FLG = .PACKED)
    (hnloop : 1 < s.path.nloop) (hlen : s.path.nreg - s.path.reg < mem.length) :
    Takes P d mem (s.toLoopStart P mem) ∧ (s.toLoopStart P mem).1.path.reg = 0 ∧
      0 < (s.toLoopStart P mem).1.path.nloop ∧
      (s.toLoopStart P mem).1.path.tag.FLG = .PACKED ∧ (s.toLoopStart P mem).2 ≠ [] := by
  induction mem generalizing s d with
  | nil => exact absurd hlen (Nat.not_lt_zero _)
  | cons r mem ih =>
    have hreg := (h.inPacket (by omega)).reg
    have hmem : mem ≠ [] := by
      rintro rfl
      simp only [List.length_cons, List.length_nil] at hlen
      omega
    have hnext := h.stepPacked (P := P) (r := r) hflg (by omega)
    have hmore := stepPacked_more (P := P) (r := r) (s := s) (by omega)
    have hflg' : (s.stepPacked P r).1.path.tag.FLG = .PACKED := by
      rw [stepPacked_flg]
      exact hflg
    by_cases hend : s.path.reg + 1 = s.path.nreg
    · have hpath : (s.stepPacked P r).1.path =
          { s.path with reg := 0, nloop := s.path.nloop - 1 } := by
        rw [stepPacked_path, GIFPath.stepReg, if_pos hend]
      have hstop : s.toLoopStart P (r :: mem) = ((s.stepPacked P r).1, mem) := by
        rw [toLoopStart]
        exact if_neg fun hmore => hmore.2.2 (congrArg GIFPath.reg hpath)
      rw [hstop, hpath]
      exact ⟨⟨[r], _, rfl, .last d r, hnext⟩, rfl, by dsimp only; omega, hflg, hmem⟩
    · have hpath : (s.stepPacked P r).1.path = { s.path with reg := s.path.reg + 1 } := by
        rw [stepPacked_path, GIFPath.stepReg, if_neg hend]
      have hpos : 0 < (s.stepPacked P r).1.path.nloop := by
        rw [hpath]
        dsimp only
        omega
      have hgo : s.toLoopStart P (r :: mem) = (s.stepPacked P r).1.toLoopStart P mem := by
        have hregne : (s.stepPacked P r).1.path.reg ≠ 0 := by
          rw [hpath]
          exact Nat.succ_ne_zero _
        rw [toLoopStart]
        exact if_pos ⟨hmore.mpr hpos, hmem, hregne⟩
      obtain ⟨htakes, hrest⟩ := ih hnext hflg' (by rw [hpath]; exact hnloop) (by
        rw [hpath]
        simp only [List.length_cons] at hlen
        dsimp only
        omega)
      rw [hgo]
      exact ⟨htakes.cons (hnext.busy hpos), hrest⟩

theorem packedPart_takes (h : Sim s d) (hflg : s.path.tag.FLG = .PACKED)
    (hnloop : 0 < s.path.nloop) (hmem : mem ≠ [])
    (hlen : mem.length < s.path.remaining.length) :
    ∃ s', s.packedPart P mem = some (s', []) ∧ Takes P d mem (s', []) := by
  induction mem generalizing s d with
  | nil => exact absurd rfl hmem
  | cons r mem ih =>
    have hnext := h.stepPacked (P := P) (r := r) hflg hnloop
    have hlen' : mem.length < (s.stepPacked P r).1.path.remaining.length := by
      rw [(h.inPacket hnloop).remaining_eq hnloop] at hlen
      rw [stepPacked_path]
      simpa using hlen
    have hpos : 0 < (s.stepPacked P r).1.path.nloop := by
      apply Nat.pos_of_ne_zero
      intro hdone
      rw [GIFPath.remaining_of_done hdone] at hlen'
      exact absurd hlen' (Nat.not_lt_zero _)
    by_cases hrest : mem = []
    · subst hrest
      refine ⟨_, ?_, [r], _, rfl, .last d r, hnext⟩
      rw [packedPart]
      exact if_neg fun hmore => hmore.2 rfl
    · obtain ⟨s', hs', htakes⟩ := ih hnext (by rw [stepPacked_flg]; exact hflg) hpos hrest hlen'
      refine ⟨s', ?_, htakes.cons (hnext.busy hpos)⟩
      rw [← hs', packedPart]
      exact if_pos ⟨(stepPacked_more hnloop).mpr hpos, hrest⟩

/-! All the registers -/

theorem unknownLoop_congr {path path' : GIFPath} (hregs : path.regs = path'.regs)
    (hnreg : path.nreg = path'.nreg) (total : BitVec 32) (reg : Nat) (m : Machine W) :
    unknownLoop P path total reg m mem = unknownLoop P path' total reg m mem := by
  induction mem generalizing total reg m with
  | nil => rfl
  | cons r mem ih =>
    rw [unknownLoop, unknownLoop, hnreg, GIFPath.getReg, GIFPath.getReg, hregs]
    simp only [ih]

theorem remaining_stepReg_length (h : Sim s d) (hnloop : 0 < s.path.nloop) :
    s.path.remaining.length = s.path.stepReg.1.remaining.length + 1 := by
  rw [(h.inPacket hnloop).remaining_eq hnloop, List.length_cons]

theorem toNat_pred {total : BitVec 32} (h : 0 < total.toNat) :
    (total - 1).toNat = total.toNat - 1 := by
  bv_omega

theorem unknownLoop_takes {total : BitVec 32} (h : Sim s d) (hflg : s.path.tag.FLG = .PACKED)
    (hnloop : 0 < s.path.nloop) (htotal : total.toNat = s.path.remaining.length)
    (hlen : total.toNat ≤ mem.length) {path : GIFPath} (htag : path.tag = s.path.tag)
    (hdone : path.nloop = 0) :
    ∃ m rest, unknownLoop P s.path total s.path.reg s.m mem = some (m, rest) ∧
      Takes P d mem (⟨m, path⟩, rest) := by
  induction mem generalizing s d total with
  | nil =>
    have hrem := remaining_stepReg_length h hnloop
    rw [List.length_nil] at hlen
    omega
  | cons r mem ih =>
    have hin := h.inPacket hnloop
    have hnext := h.stepPacked (P := P) (r := r) hflg hnloop
    have hrem := remaining_stepReg_length h hnloop
    have hlast : (total - 1).toNat = s.path.stepReg.1.remaining.length := by
      rw [toNat_pred (by omega)]
      omega
    by_cases hend : total - 1 = 0
    · have hlast' : s.path.stepReg.1.nloop = 0 := by
        by_contra hne
        have hpos := Nat.pos_of_ne_zero hne
        have hrem' := remaining_stepReg_length hnext hpos
        rw [stepPacked_path, ← hlast, hend] at hrem'
        exact absurd hrem' (by simp)
      refine ⟨(s.stepPacked P r).1.m, mem, ?_, [r], _, rfl, .last d r, ?_⟩
      · rw [unknownLoop]
        exact if_pos hend
      · exact hnext.done hlast' (htag.trans stepPacked_flg.symm) hdone
    · have hpos : 0 < s.path.stepReg.1.nloop := by
        apply Nat.pos_of_ne_zero
        intro hdone
        rw [GIFPath.remaining_of_done hdone] at hlast
        exact hend (BitVec.eq_of_toNat_eq hlast)
      obtain ⟨m, rest, hrun, htakes⟩ := ih hnext (by rw [stepPacked_flg]; exact hflg) hpos hlast
        (by rw [toNat_pred (by omega)]; rw [List.length_cons] at hlen; omega)
        (htag.trans stepPacked_flg.symm)
      refine ⟨m, rest, ?_, ?_⟩
      · rw [unknownLoop, if_neg hend, ← hrun, stepPacked_path,
          GIFPath.stepReg_reg hin.reg]
        exact unknownLoop_congr GIFPath.stepReg_regs.symm GIFPath.stepReg_nreg.symm _ _ _
      · exact htakes.cons (hnext.busy hpos)

theorem adOnlyLoop_eq {path : GIFPath} (had : ∀ i < path.nreg, path.getReg i = 0xe)
    (total : BitVec 32) {reg : Nat} (hreg : reg < path.nreg) (m : Machine W) :
    adOnlyLoop P total m mem = unknownLoop P path total reg m mem := by
  induction mem generalizing total reg m with
  | nil => rfl
  | cons r mem ih =>
    have hnext : (if reg + 1 < path.nreg then reg + 1 else 0) < path.nreg := by
      split <;> omega
    rw [adOnlyLoop, unknownLoop, had reg hreg, ih (total - 1) hnext]
    rfl

end State

namespace Machine

/-- Machines that differ in `m_q` at most. -/
def Same (m m' : Machine W) : Prop := m.gs = m'.gs ∧ m.m_v = m'.m_v

theorem combined_same {m m' : Machine W} {set : GIFPackedReg → GSVertex → GSVertex}
    {r0 r1 r2 : GIFPackedReg} (hQ : isNaN (u32 r0 2) = false)
    (hskip : P.m_frameskip m'.gs = false) (h : m.Same m') :
    (m.combined P set r0 r1 r2).Same (((m'.packedSTQ r0).packedRGBA r1).packedXYZ P set false r2) := by
  obtain ⟨hgs, hm_v⟩ := h
  have hreplace : replace_nan (nonzeroQ (u32 r0 2)) = nonzeroQ (u32 r0 2) := by
    unfold nonzeroQ
    split
    · rfl
    · rw [replace_nan, hQ]
      rfl
  simp only [Same, combined, packedXYZ, packedRGBA, packedSTQ, hskip, vertexKick, hgs, hm_v,
    hreplace]
  exact ⟨rfl, rfl⟩

end Machine

namespace State

open Machine

/-- The registers of a combined handler, and the position that it sets. -/
def Combines (P : Plugin W) (x : BitVec 4) (set : GIFPackedReg → GSVertex → GSVertex) : Prop :=
  ∀ r (m : Machine W), m.packedRegHandler P x r = m.packedXYZ P set false r

theorem combined_consumes {index : Fin 4} {x : BitVec 4}
    {set : GIFPackedReg → GSVertex → GSVertex} (hx : Combines P x set) {m : Machine W}
    {r0 r1 r2 : GIFPackedReg} {todo : List Item} (hsame : m.Same d.m)
    (htodo : d.todo = .packed 2 :: .packed 1 :: .packed x :: todo) (hfast : d.fast = true)
    (hfine : d.FineRun P index (r0 :: r1 :: r2 :: mem)) :
    ∃ d', d.Consumes P [r0, r1, r2] d' ∧ d'.todo = todo ∧ d'.fast = true ∧ d'.EOP = d.EOP ∧
      (m.combined P set r0 r1 r2).Same d'.m ∧ (todo ≠ [] → d'.FineRun P index mem) := by
  let d1 : Decoder W := { d with m := d.m.packedSTQ r0, todo := .packed 1 :: .packed x :: todo }
  let d2 : Decoder W := { d1 with m := d1.m.packedRGBA r1, todo := .packed x :: todo }
  let d3 : Decoder W := { d2 with m := d2.m.packedXYZ P set false r2, todo := todo }
  have h1 : d.step P r0 = d1 := by
    rw [Decoder.step, htodo]
    rfl
  have h2 : d1.step P r1 = d2 := rfl
  have h3 : d2.step P r2 = d3 := by
    simp only [Decoder.step, d2, hx r2 _, d3]
  have hfine1 : d1.FineRun P index (r1 :: r2 :: mem) := h1 ▸ hfine.next (by rw [h1]; nofun)
  have hfine2 : d2.FineRun P index (r2 :: mem) := h2 ▸ hfine1.next (by rw [h2]; nofun)
  obtain ⟨-, hQ⟩ := hfine.1.1 hfast
  obtain ⟨hskip, -⟩ := hfine1.1.1 hfast
  refine ⟨d3, ?_, rfl, hfast, rfl, ?_, fun htodo' => ?_⟩
  · refine .cons (by rw [h1]; nofun) ?_
    rw [h1]
    refine .cons (by rw [h2]; nofun) ?_
    rw [h2, ← h3]
    exact .last d2 r2
  · exact combined_same (hQ (by rw [htodo]; rfl)) hskip hsame
  · rw [← h3]
    exact hfine2.next (by rw [h3]; exact htodo')

theorem exists_three {l : List GIFPackedReg} (h : 3 ≤ l.length) :
    ∃ r0 r1 r2 l', l = r0 :: r1 :: r2 :: l' := by
  obtain ⟨r0, l, rfl⟩ := List.exists_cons_of_length_pos (by omega : 0 < l.length)
  rw [List.length_cons] at h
  obtain ⟨r1, l, rfl⟩ := List.exists_cons_of_length_pos (by omega : 0 < l.length)
  rw [List.length_cons] at h
  obtain ⟨r2, l, rfl⟩ := List.exists_cons_of_length_pos (by omega : 0 < l.length)
  exact ⟨r0, r1, r2, l, rfl⟩

theorem combinedLoop_consumes {index : Fin 4} {x : BitVec 4}
    {set : GIFPackedReg → GSVertex → GSVertex} (hx : Combines P x set) {n : Nat} {m : Machine W}
    (hsame : m.Same d.m) (htodo : d.todo = (List.replicate (n + 1) [2, 1, x]).flatten.map .packed)
    (hfast : d.fast = true) (hlen : 3 * (n + 1) ≤ mem.length) (hfine : d.FineRun P index mem) :
    ∃ pre post d', mem = pre ++ post ∧ pre.length = 3 * (n + 1) ∧ d.Consumes P pre d' ∧
      d'.todo = [] ∧ d'.EOP = d.EOP ∧ (combinedLoop P set m pre).Same d'.m := by
  induction n generalizing d m mem with
  | zero =>
    obtain ⟨r0, r1, r2, mem, rfl⟩ : ∃ r0 r1 r2 mem', mem = r0 :: r1 :: r2 :: mem' :=
      exists_three (by omega)
    obtain ⟨d', hd', htodo', -, hEOP, hsame', -⟩ := combined_consumes hx hsame htodo hfast hfine
    exact ⟨[r0, r1, r2], mem, d', rfl, rfl, hd', htodo', hEOP, hsame'⟩
  | succ n ih =>
    obtain ⟨r0, r1, r2, mem, rfl⟩ : ∃ r0 r1 r2 mem', mem = r0 :: r1 :: r2 :: mem' :=
      exists_three (by omega)
    rw [List.replicate_succ, List.flatten_cons] at htodo
    obtain ⟨d1, hd1, htodo1, hfast1, hEOP1, hsame1, hfine1⟩ :=
      combined_consumes hx hsame htodo hfast hfine
    have hbusy : d1.todo ≠ [] := by
      rw [htodo1, List.replicate_succ]
      nofun
    obtain ⟨pre, post, d', rfl, hlen', hd', htodo', hEOP', hsame'⟩ :=
      ih hsame1 htodo1 hfast1 (by simp only [List.length_cons] at hlen; omega)
        (hfine1 (htodo1 ▸ hbusy))
    refine ⟨r0 :: r1 :: r2 :: pre, post, d', rfl, ?_, hd1.append hbusy hd', htodo',
      hEOP'.trans hEOP1, hsame'⟩
    simp only [List.length_cons, hlen']
    omega

theorem combinedHandler_takes {index : Fin 4} {x : BitVec 4}
    {set : GIFPackedReg → GSVertex → GSVertex} (hx : Combines P x set) (h : Sim s d)
    (hflg : s.path.tag.FLG = .PACKED) (hnloop : 0 < s.path.nloop) (hreg : s.path.reg = 0)
    (hregs : s.path.nreg = 3 ∧ s.path.regs.take 3 = [2, 1, x])
    (htype : s.path.type = .STQRGBAXYZF2 ∨ s.path.type = .STQRGBAXYZ2)
    (hlen : s.path.nloop * 3 ≤ mem.length) (hfine : d.FineRun P index mem) {path : GIFPath}
    (htag : path.tag = s.path.tag) (hdone : path.nloop = 0) :
    ∃ m rest, combinedHandler P set (s.path.nloop * 3) s.m mem = some (m, rest) ∧
      Takes P d mem (⟨m, path⟩, rest) := by
  obtain ⟨n, hn⟩ : ∃ n, s.path.nloop = n + 1 := ⟨s.path.nloop - 1, by omega⟩
  have hfast := (h.fast hnloop).mp htype
  have htodo : d.todo = (List.replicate (n + 1) [2, 1, x]).flatten.map .packed := by
    rw [h.todo, GIFPath.todo, hflg]
    simp only [GIFPath.remaining, hregs.1, hregs.2, hreg, hn, List.drop_zero]
  obtain ⟨pre, rest, d', rfl, hpre, hd', htodo', hEOP, hsame⟩ :=
    combinedLoop_consumes (m := s.m) hx ⟨h.gs, h.m_v⟩ htodo hfast (by omega) hfine
  have hskip : P.m_frameskip s.m.gs = false := by
    obtain ⟨r, pre, rfl⟩ := List.exists_cons_of_length_pos (by omega : 0 < pre.length)
    rw [h.gs]
    exact (hfine.1.1 hfast).1
  have htotal : s.path.nloop * 3 = pre.length := by omega
  have hne : ¬ pre.length = 0 := by omega
  refine ⟨{ combinedLoop P set s.m pre with
    m_q := u32 ((pre ++ rest).getD (pre.length - 3) 0) 2 }, rest, ?_, pre, d', rfl, hd', ?_⟩
  · rw [combinedHandler, hskip, htotal, if_neg hne, List.drop_left, List.take_left]
    rfl
  · have hpos : ¬ 0 < path.nloop := by omega
    refine ⟨hsame.1, hsame.2, ?_, ?_, fun h => absurd h hpos, fun h => absurd h hpos,
      fun h => absurd h hpos⟩
    · rw [htag, hEOP]
      exact h.EOP
    · rw [htodo']
      exact (GIFPath.todo_of_done hdone).symm

theorem remaining_length (h : Sim s d) (hnloop : 0 < s.path.nloop) (hreg : s.path.reg = 0) :
    s.path.remaining.length = s.path.nloop * s.path.nreg := by
  simp [GIFPath.remaining, hreg, (h.inPacket hnloop).nreg]

theorem packedAll_takes {index : Fin 4} (h : Sim s d) (hflg : s.path.tag.FLG = .PACKED)
    (hnloop : 0 < s.path.nloop) (hreg : s.path.reg = 0)
    (hlen : s.path.nloop * s.path.nreg ≤ mem.length)
    (hfine : d.FineRun P index mem)
    {path : GIFPath} (htag : path.tag = s.path.tag) (hdone : path.nloop = 0) :
    ∃ m rest, s.packedAll P (s.path.nloop * s.path.nreg) mem = some (m, rest) ∧
      Takes P d mem (⟨m, path⟩, rest) := by
  have hin := h.inPacket hnloop
  have htotal : (BitVec.ofNat 32 (s.path.nloop * s.path.nreg)).toNat =
      s.path.remaining.length := by
    rw [remaining_length h hnloop hreg, BitVec.toNat_ofNat,
      Nat.mod_eq_of_lt hin.size]
  have hloop := unknownLoop_takes (P := P) h hflg hnloop htotal
    (by rw [htotal, remaining_length h hnloop hreg]; exact hlen) htag hdone
  unfold packedAll
  cases htype : s.path.type with
  | UNKNOWN =>
    rw [hreg] at hloop
    exact hloop
  | ADONLY =>
    rw [← adOnlyLoop_eq (hin.ad htype) _ hin.reg] at hloop
    exact hloop
  | STQRGBAXYZF2 =>
    have hregs := hin.xyzf2 htype
    rw [hregs.1] at hlen ⊢
    exact combinedHandler_takes (fun _ _ => rfl) h hflg hnloop hreg hregs (.inl htype) hlen hfine
      htag hdone
  | STQRGBAXYZ2 =>
    have hregs := hin.xyz2 htype
    rw [hregs.1] at hlen ⊢
    exact combinedHandler_takes (fun _ _ => rfl) h hflg hnloop hreg hregs (.inr htype) hlen hfine
      htag hdone

theorem packed_takes_start {index : Fin 4} (h : Sim s d) (hflg : s.path.tag.FLG = .PACKED)
    (hnloop : 0 < s.path.nloop) (hreg : s.path.reg = 0) (hmem : mem ≠ [])
    (hfine : d.FineRun P index mem) :
    ∃ s' rest, (let total := s.path.nloop * s.path.nreg
      if total ≤ mem.length then do
        let (m, mem) ← s.packedAll P total mem
        some (⟨m, { s.path with nloop := 0 }⟩, mem)
      else s.packedPart P mem) = some (s', rest) ∧
      Takes P d mem (s', rest) ∧ (rest = [] ∨ s'.path.nloop = 0) := by
  by_cases hall : s.path.nloop * s.path.nreg ≤ mem.length
  · have htag : { s.path with nloop := 0 }.tag = s.path.tag := rfl
    obtain ⟨m, rest, hrun, htakes⟩ := packedAll_takes h hflg hnloop hreg hall hfine htag rfl
    refine ⟨_, rest, ?_, htakes, .inr rfl⟩
    simp only [if_pos hall, hrun]
    rfl
  · obtain ⟨s', hrun, htakes⟩ := packedPart_takes (P := P) h hflg hnloop hmem (by
      rw [remaining_length h hnloop hreg]
      omega)
    refine ⟨s', [], ?_, htakes, .inl rfl⟩
    simp only [if_neg hall, hrun]

theorem packed_takes {index : Fin 4} (h : Sim s d) (hflg : s.path.tag.FLG = .PACKED)
    (hnloop : 0 < s.path.nloop) (hmem : mem ≠ []) (hresume : s.path.Resumable mem.length)
    (hfine : d.FineRun P index mem) :
    ∃ s' rest, s.packed P mem = some (s', rest) ∧ Takes P d mem (s', rest) ∧
      (rest = [] ∨ s'.path.nloop = 0) := by
  by_cases hreg : s.path.reg = 0
  · have hstart := packed_takes_start h hflg hnloop hreg hmem hfine
    rw [packed, if_neg (not_not_intro hreg)]
    exact hstart
  · obtain ⟨hmore, hlen⟩ := hresume (by simpa using hmem) (by omega) hflg hreg
    obtain ⟨⟨pre, d', hpre, hd', hsim⟩, hreg', hnloop', hflg', hrest⟩ :=
      toLoopStart_takes (P := P) h hflg hmore hlen
    have hbusy := hsim.busy hnloop'
    rw [hpre] at hfine
    obtain ⟨s', rest, hrun, htakes, hend⟩ :=
      packed_takes_start hsim hflg' hnloop' hreg' hrest 
        (hd'.fineRun (fun hstops => hbusy hstops.2.2) hfine)
    refine ⟨s', rest, ?_, ?_, hend⟩
    · rw [packed, if_pos hreg]
      exact hrun
    · rw [hpre]
      exact .trans hd' hbusy htakes

/-! Register lists and images -/

theorem reglistLoop_cons (s : State W) (r : GIFReg) (mem : List GIFReg) :
    s.reglistLoop P (r :: mem) =
      let m := s.m.regHandler P ((s.path.getReg s.path.reg).setWidth 8) r
      if s.path.stepReg.2 = true ∧ mem ≠ [] then reglistLoop P ⟨m, s.path.stepReg.1⟩ mem
      else (⟨m, s.path.stepReg.1⟩, mem) :=
  rfl

theorem reglistLoop_takes (h : Sim s d) (hflg : s.path.tag.FLG = .REGLIST)
    (hnloop : 0 < s.path.nloop) (hmem : mem ≠ []) :
    ∃ pre post d', mem = pre ++ post ∧ d.Consumes P pre d' ∧
      Sim (s.reglistLoop P (mem.flatMap halves)).1 d' ∧
      (s.reglistLoop P (mem.flatMap halves)).2.length / 2 = post.length ∧
      (post = [] ∨ (s.reglistLoop P (mem.flatMap halves)).1.path.nloop = 0) := by
  induction mem generalizing s d with
  | nil => exact absurd rfl hmem
  | cons r mem ih =>
    have hhalves : ((r :: mem).flatMap halves) =
        r.extractLsb' 0 64 :: r.extractLsb' 64 64 :: mem.flatMap halves := rfl
    have hlen : (mem.flatMap halves).length = 2 * mem.length := by
      simp [halves, List.length_flatMap, Nat.mul_comm]
    let m1 := d.m.regHandler P ((s.path.getReg s.path.reg).setWidth 8) (r.extractLsb' 0 64)
    let s1 : State W := ⟨m1, s.path.stepReg.1⟩
    have h1 := h.stepReg hnloop m1
    have hmore := GIFPath.stepReg_more hnloop
    have htodo := h.todo_half hflg hnloop
    rw [hhalves, reglistLoop_cons, h.m hnloop]
    dsimp only
    by_cases hnloop1 : 0 < s.path.stepReg.1.nloop
    · let m2 := m1.regHandler P ((s1.path.getReg s1.path.reg).setWidth 8) (r.extractLsb' 64 64)
      have h2 := h1.stepReg hnloop1 m2
      have hflg1 : s1.path.tag.FLG = .REGLIST := by
        rw [GIFPath.stepReg_tag]
        exact hflg
      have htodo1 : s.path.stepReg.1.todo = .half (s1.path.getReg s1.path.reg) ::
          s1.path.stepReg.1.todo := h1.todo_half hflg1 hnloop1
      have hstep : d.step P r = { d with m := m2, todo := s1.path.stepReg.1.todo } := by
        rw [Decoder.step, htodo, htodo1]
      rw [if_pos ⟨hmore.mpr hnloop1, nofun⟩, reglistLoop_cons]
      dsimp only
      by_cases hgo : 0 < s1.path.stepReg.1.nloop ∧ mem ≠ []
      · rw [if_pos ⟨(GIFPath.stepReg_more hnloop1).mpr hgo.1, by
          rintro hnil
          rw [hnil] at hlen
          exact hgo.2 (List.eq_nil_of_length_eq_zero (by simpa using hlen.symm))⟩]
        obtain ⟨pre, post, d', rfl, hd', hsim, hpost, hend⟩ :=
          ih h2 (by rw [GIFPath.stepReg_tag]; exact hflg1) hgo.1 hgo.2
        rw [← hstep] at hd'
        refine ⟨r :: pre, post, d', rfl, .cons ?_ hd', hsim, hpost, hend⟩
        rw [hstep]
        exact h2.busy hgo.1
      · rw [if_neg (by
          rintro ⟨hmore2, hne⟩
          refine hgo ⟨(GIFPath.stepReg_more hnloop1).mp hmore2, ?_⟩
          rintro rfl
          exact hne rfl)]
        refine ⟨[r], mem, _, rfl, .last d r, hstep ▸ h2, ?_, ?_⟩
        · rw [hlen]
          omega
        · by_cases hmem' : mem = []
          · exact .inl hmem'
          · refine .inr ?_
            exact Nat.eq_zero_of_not_pos (not_and'.mp hgo hmem')
    · have hdone : s.path.stepReg.1.nloop = 0 := by omega
      have hstep : d.step P r = { d with m := m1, todo := s.path.stepReg.1.todo } := by
        rw [Decoder.step, htodo, GIFPath.todo_of_done hdone]
      rw [if_neg fun hgo => hnloop1 (hmore.mp hgo.1)]
      refine ⟨[r], mem, _, rfl, .last d r, hstep ▸ h1, ?_, .inr hdone⟩
      rw [List.length_cons, hlen]
      omega

theorem reglist_takes (h : Sim s d) (hflg : s.path.tag.FLG = .REGLIST)
    (hnloop : 0 < s.path.nloop) (hmem : mem ≠ []) :
    Takes P d mem (s.reglist P mem) ∧
      ((s.reglist P mem).2 = [] ∨ (s.reglist P mem).1.path.nloop = 0) := by
  obtain ⟨pre, post, d', rfl, hd', hsim, hpost, hend⟩ :=
    reglistLoop_takes (P := P) h hflg hnloop hmem
  have hdrop : (s.reglist P (pre ++ post)).2 = post := by
    simp only [reglist, hpost]
    rw [List.length_append, Nat.add_sub_cancel, List.drop_left]
  rw [hdrop]
  exact ⟨⟨pre, d', by rw [hdrop], hd', hsim⟩, hend⟩

theorem image_consumes {n : Nat} (htodo : d.todo = List.replicate n .image) (hmem : mem ≠ [])
    (hlen : mem.length ≤ n) :
    d.Consumes P mem { d with
      m := { d.m with
        gs := if P.XDIR d.m.gs = 0 then mem.foldl (fun gs r => P.write r gs) d.m.gs else d.m.gs }
      todo := List.replicate (n - mem.length) .image } := by
  induction mem generalizing d n with
  | nil => exact absurd rfl hmem
  | cons r mem ih =>
    obtain ⟨n, rfl⟩ : ∃ k, n = k + 1 := ⟨n - 1, by rw [List.length_cons] at hlen; omega⟩
    rw [List.replicate_succ] at htodo
    let gs := if P.XDIR d.m.gs = 0 then P.write r d.m.gs else d.m.gs
    let d1 : Decoder W := { d with m := { d.m with gs := gs }, todo := List.replicate n .image }
    have hstep : d.step P r = d1 := by
      rw [Decoder.step, htodo]
    have hXDIR : P.XDIR gs = P.XDIR d.m.gs := by
      simp only [gs]
      split
      · exact P.XDIR_write r d.m.gs
      · rfl
    by_cases hrest : mem = []
    · subst hrest
      have hlast := Decoder.Consumes.last (P := P) d r
      rw [hstep] at hlast
      exact hlast
    · have hpos := List.length_pos_of_ne_nil hrest
      rw [List.length_cons] at hlen ⊢
      have hgs : (if P.XDIR gs = 0 then mem.foldl (fun gs r => P.write r gs) gs else gs) =
          if P.XDIR d.m.gs = 0 then (r :: mem).foldl (fun gs r => P.write r gs) d.m.gs
            else d.m.gs := by
        rw [hXDIR]
        simp only [gs]
        split <;> rfl
      have hih := ih (d := d1) rfl hrest (by omega)
      rw [show d1.m.gs = gs from rfl, hgs] at hih
      refine .cons ?_ ?_
      · rw [hstep]
        simp only [d1, ne_eq, List.replicate_eq_nil_iff]
        omega
      · rw [hstep, Nat.add_sub_add_right]
        exact hih

theorem xdir_cases : ∀ x : BitVec 2, x ≠ 2 → x = 0 ∨ x = 1 ∨ x = 3 := by
  decide

theorem image_takes {index : Fin 4} (h : Sim s d)
    (hflg : s.path.tag.FLG = .IMAGE ∨ s.path.tag.FLG = .IMAGE2) (hnloop : 0 < s.path.nloop)
    (hmem : mem ≠ []) (hfine : d.FineRun P index mem) :
    Takes P d mem (s.image P mem) ∧
      ((s.image P mem).2 = [] ∨ (s.image P mem).1.path.nloop = 0) := by
  have htodo : d.todo = List.replicate s.path.nloop .image := by
    rw [h.todo, GIFPath.todo]
    obtain hflg | hflg := hflg <;> rw [hflg]
  have hlen : min mem.length s.path.nloop = (mem.take s.path.nloop).length := by
    rw [List.length_take, Nat.min_comm]
  have htake : mem.take (min mem.length s.path.nloop) = mem.take s.path.nloop := by
    rw [Nat.min_comm, ← List.take_eq_take_min]
  have hXDIR : P.XDIR d.m.gs ≠ 2 := by
    obtain ⟨r, mem, rfl⟩ := List.exists_cons_of_ne_nil hmem
    refine hfine.1.2 ?_
    obtain ⟨n, hn⟩ : ∃ n, s.path.nloop = n + 1 := ⟨s.path.nloop - 1, by omega⟩
    rw [htodo, hn]
    rfl
  have hgs : (s.image P mem).1.m.gs =
      if P.XDIR d.m.gs = 0 then
        (mem.take s.path.nloop).foldl (fun gs r => P.write r gs) d.m.gs
      else d.m.gs := by
    simp only [image, htake, h.gs]
    obtain hX | hX | hX := xdir_cases _ hXDIR <;> rw [hX] <;> rfl
  have hpre : mem.take s.path.nloop ≠ [] := by
    rw [← List.length_pos_iff, ← hlen]
    have hpos := List.length_pos_of_ne_nil hmem
    omega
  have hd' := image_consumes (P := P) htodo hpre (by rw [← hlen]; omega)
  rw [← hgs] at hd'
  refine ⟨⟨_, _, ?_, hd', ?_⟩, ?_⟩
  · simp only [image, ← htake]
    exact (List.take_append_drop _ mem).symm
  · have hm_v : (s.image P mem).1.m.m_v = d.m.m_v := h.m_v
    have hm_q : s.m.m_q = d.m.m_q := congrArg Machine.m_q (h.m hnloop)
    have hleft : (s.image P mem).1.path.nloop = s.path.nloop - (mem.take s.path.nloop).length := by
      simp only [image, hlen]
    refine ⟨rfl, hm_v, h.EOP, ?_, fun _ => ?_, fun _ => ?_, fun _ => h.fast hnloop⟩
    · rw [← hleft, GIFPath.todo]
      obtain hflg | hflg := hflg <;> rw [show (s.image P mem).1.path.tag.FLG = _ from hflg]
    · exact Machine.ext rfl hm_v hm_q
    · obtain ⟨hreg, hnreg, hsize, had, hxyzf2, hxyz2⟩ := h.inPacket hnloop
      refine ⟨hreg, hnreg, Nat.lt_of_le_of_lt ?_ hsize, had, hxyzf2, hxyz2⟩
      exact Nat.mul_le_mul_right _ (Nat.sub_le _ _)
  · simp only [image, List.drop_eq_nil_iff]
    omega

/-! Rounds and calls -/

theorem tag_path : (s.tag P r).path = s.path.setTag r := by
  unfold tag
  dsimp only
  split <;> rfl

theorem round_takes {index : Fin 4} (h : Sim s d) (hmem : mem ≠ [])
    (hresume : s.path.Resumable mem.length) (hfine : d.FineRun P index mem) :
    ∃ s' rest, s.round P mem = some (s', rest) ∧ Takes P d mem (s', rest) ∧
      s'.path.Resumable rest.length := by
  have hend : ∀ {s' : State W} {rest : List GIFPackedReg}, rest = [] ∨ s'.path.nloop = 0 →
      s'.path.Resumable rest.length := by
    rintro s' rest (rfl | hdone)
    · exact fun hne => absurd rfl hne
    · exact fun _ hne => absurd hdone hne
  obtain ⟨r, mem, rfl⟩ := List.exists_cons_of_ne_nil hmem
  by_cases hdone : s.path.nloop = 0
  · refine ⟨s.tag P r, mem, if_pos hdone, ⟨[r], _, rfl, .last d r, h.tag hdone⟩, ?_⟩
    intro _ hnloop _ hreg
    rw [tag_path] at hnloop hreg
    have hloop : GIFTag.NLOOP (r.extractLsb' 0 64) ≠ 0 := by
      intro hloop
      rw [GIFPath.setTag, if_pos hloop] at hnloop
      exact hnloop rfl
    exact absurd (GIFPath.setTag_spec hloop).reg hreg
  · have hnloop := Nat.pos_of_ne_zero hdone
    rw [round, if_neg hdone]
    cases hflg : s.path.tag.FLG with
    | PACKED =>
      obtain ⟨s', rest, hrun, htakes, hlast⟩ := packed_takes h hflg hnloop hmem hresume hfine
      exact ⟨s', rest, hrun, htakes, hend hlast⟩
    | REGLIST =>
      obtain ⟨htakes, hlast⟩ := reglist_takes (P := P) h hflg hnloop hmem
      exact ⟨_, _, rfl, htakes, hend hlast⟩
    | IMAGE =>
      obtain ⟨htakes, hlast⟩ := image_takes h (.inl hflg) hnloop hmem hfine
      exact ⟨_, _, rfl, htakes, hend hlast⟩
    | IMAGE2 =>
      obtain ⟨htakes, hlast⟩ := image_takes h (.inr hflg) hnloop hmem hfine
      exact ⟨_, _, rfl, htakes, hend hlast⟩

theorem rounds_takes {index : Fin 4} {fuel : Nat} (h : Sim s d)
    (hresume : s.path.Resumable mem.length) (hfine : d.FineRun P index mem)
    (hfuel : mem.length ≤ fuel) :
    ∃ s' rest, s.rounds P index fuel mem = some (s', rest) ∧ Sim s' (d.run P index mem) ∧
      (rest = [] ∨ s'.path.nloop = 0) := by
  induction fuel generalizing s d mem with
  | zero =>
    obtain rfl := List.eq_nil_of_length_eq_zero (Nat.le_zero.mp hfuel)
    exact ⟨s, [], rfl, h, .inl rfl⟩
  | succ fuel ih =>
    by_cases hmem : mem = []
    · subst hmem
      exact ⟨s, [], rfl, h, .inl rfl⟩
    · obtain ⟨s', rest, hround, ⟨pre, d', hpre, hd', hsim⟩, hresume'⟩ :=
        round_takes h hmem hresume hfine
      have hrun : d.run P index mem = if d'.Stops index then d' else d'.run P index rest := by
        rw [hpre]
        exact hd'.run rest
      have hlen : rest.length < mem.length := by
        have hpos := List.length_pos_of_ne_nil hd'.ne_nil
        have hlen := congrArg List.length hpre
        rw [List.length_append] at hlen
        dsimp only at hlen
        omega
      obtain ⟨r, mem, rfl⟩ := List.exists_cons_of_ne_nil hmem
      simp only [rounds, hround, Option.bind_eq_bind, Option.bind_some]
      rw [hrun]
      by_cases hstops : d'.Stops index
      · rw [if_pos hstops, if_pos ((hsim.stops index).mp hstops)]
        exact ⟨s', rest, rfl, hsim, .inr ((hsim.stops index).mp hstops).2.2⟩
      · rw [if_neg hstops, if_neg fun h => hstops ((hsim.stops index).mpr h)]
        rw [hpre] at hfine
        exact ih hsim hresume' (hd'.fineRun hstops hfine) (by omega)

theorem transfer_of_rounds {index : Fin 4} {s' : State W} {rest : List GIFPackedReg}
    (hrun : s.rounds P index mem.length mem = some (s', rest)) :
    s.transfer P index mem = if index = 0 ∧ rest = [] ∧ s'.path.nloop > 0 then
      if P.m_mt then some { s' with path := { s'.path with nloop := 0 } } else none
    else some s' := by
  rw [transfer, hrun]
  rfl

theorem transfer_sim {index : Fin 4} (h : Sim s d) (hmt : index = 0 → P.m_mt = true)
    (hresume : s.path.Resumable mem.length) (hfine : d.FineRun P index mem) :
    ∃ s', s.transfer P index mem = some s' ∧ Sim s' (d.call P index mem) := by
  obtain ⟨s', rest, hrun, hsim, hend⟩ := rounds_takes h hresume hfine (Nat.le_refl _)
  rw [transfer_of_rounds hrun, Decoder.call]
  by_cases hindex : index = 0
  · rw [if_pos hindex, hmt hindex]
    by_cases hleft : index = 0 ∧ rest = [] ∧ s'.path.nloop > 0
    · rw [if_pos hleft]
      have hidle : ¬ 0 < 0 := Nat.lt_irrefl 0
      exact ⟨_, rfl, hsim.gs, hsim.m_v, hsim.EOP, (GIFPath.todo_of_done rfl).symm,
        fun h => absurd h hidle, fun h => absurd h hidle, fun h => absurd h hidle⟩
    · rw [if_neg hleft]
      have hdone : s'.path.nloop = 0 := by
        by_contra hne
        exact hleft ⟨hindex, hend.resolve_right hne, Nat.pos_of_ne_zero hne⟩
      have htodo := hsim.todo_eq_nil.mpr hdone
      rw [← htodo]
      exact ⟨s', rfl, hsim⟩
  · rw [if_neg hindex, if_neg fun h => hindex h.1]
    exact ⟨s', rfl, hsim⟩

/-- Calls that can be resumed where they begin, with quadwords that are handled alike. -/
def Careful (P : Plugin W) (index : Fin 4) : State W → Decoder W → List (List GIFPackedReg) → Prop
  | _, _, [] => True
  | s, d, mem :: calls =>
    s.path.Resumable mem.length ∧ d.FineRun P index mem ∧
      match s.transfer P index mem with
      | some s' => Careful P index s' (d.call P index mem) calls
      | none => True

instance Careful.instDecidable (P : Plugin W) (index : Fin 4) :
    ∀ (s : State W) d calls, Decidable (Careful P index s d calls)
  | _, _, [] => isTrue trivial
  | s, d, mem :: calls =>
    have : Decidable (match s.transfer P index mem with
        | some s' => Careful P index s' (d.call P index mem) calls
        | none => True) :=
      match s.transfer P index mem with
      | some s' => Careful.instDecidable P index s' (d.call P index mem) calls
      | none => isTrue trivial
    inferInstanceAs (Decidable (_ ∧ _ ∧ _))

theorem transfers_sim {index : Fin 4} (hmt : index = 0 → P.m_mt = true)
    {calls : List (List GIFPackedReg)} (h : Sim s d) (hcareful : Careful P index s d calls) :
    ∃ s', s.transfers P index calls = some s' ∧ Sim s' (d.calls P index calls) := by
  induction calls generalizing s d with
  | nil => exact ⟨s, rfl, h⟩
  | cons mem calls ih =>
    obtain ⟨hresume, hfine, hrest⟩ := hcareful
    obtain ⟨s', hrun, hsim⟩ := transfer_sim h hmt hresume hfine
    rw [hrun] at hrest
    obtain ⟨s'', hrun', hsim'⟩ := ih hsim hrest
    refine ⟨s'', ?_, hsim'⟩
    simp only [transfers, hrun, Option.bind_eq_bind, Option.bind_some]
    exact hrun'

end State

/-- A path after `Reset`, with the vertices and registers in any state. -/
def State.start (m : Machine W) : State W := ⟨m, GIFPath.init⟩

def Decoder.start (m : Machine W) : Decoder W := ⟨m, false, [], false⟩

theorem Sim.start (m : Machine W) : Sim (.start m) (.start m) :=
  ⟨rfl, rfl, (by decide : GIFTag.EOP 0 = false), (GIFPath.todo_of_done rfl).symm, nofun, nofun,
    nofun⟩

/-- What `Transfer` does is what the decoder does, which for all paths but the first does not
depend on where the calls begin and end. -/
theorem transfers_eq_decoder (P : Plugin W) (index : Fin 4) (m : Machine W)
    (hmt : index = 0 → P.m_mt = true) :
    (∀ calls, State.Careful P index (.start m) (.start m) calls →
      ∃ s, (State.start m).transfers P index calls = some s ∧
        s.m.gs = ((Decoder.start m).calls P index calls).m.gs ∧
        s.m.m_v = ((Decoder.start m).calls P index calls).m.m_v) ∧
    (index ≠ 0 → ∀ calls, (Decoder.start m).calls P index calls =
      calls.flatten.foldl (Decoder.step P) (.start m)) := by
  refine ⟨fun calls hcareful => ?_, fun hindex calls => Decoder.calls_eq_foldl hindex _ calls⟩
  obtain ⟨s, hrun, hsim⟩ := State.transfers_sim hmt (Sim.start m) hcareful
  exact ⟨s, hrun, hsim.gs, hsim.m_v⟩

/-- What a plugin is told to do. -/
inductive Effect
  | reg (ADDR : BitVec 8) (r : GIFReg)
  | kick (skip : BitVec 32) (m_v : GSVertex)
  | prim (PRIM : BitVec 11)
  | uv
  | image (r : GIFPackedReg)
  | move
  deriving DecidableEq

/-- A plugin that writes down what it is told. -/
def logged : Plugin (List Effect) where
  regHandler ADDR r x := (.reg ADDR r :: x.1, x.2)
  vertexKick skip x := (.kick skip x.2 :: x.1, x.2)
  applyPRIM PRIM gs := .prim PRIM :: gs
  uvHack gs := .uv :: gs
  write r gs := .image r :: gs
  move gs := .move :: gs
  XDIR _ := 0
  XDIR_write _ _ := rfl
  m_frameskip _ := false
  m_mt := true

def Machine.idle : Machine (List Effect) := ⟨[], ⟨0, 0, 0, 0, 0, 0, 0, 0⟩, m_one⟩

/-- Two loops of `ST`, `RGBAQ` and `XYZF2`. -/
def twoVertices : List GIFPackedReg := [0x412_3000000000008002, 1 <<< 64, 0, 0, 2 <<< 64, 0, 0]

/-- A packet that is cut in its first loop. -/
theorem transfers_eq_decoder_twoVertices :
    ∃ s, (State.start .idle).transfers logged 2 [twoVertices.take 3, twoVertices.drop 3] = some s ∧
      s.m.gs = ([twoVertices.take 3, twoVertices.drop 3].flatten.foldl (Decoder.step logged)
        (.start .idle)).m.gs := by
  obtain ⟨hcalls, hflat⟩ := transfers_eq_decoder logged 2 .idle nofun
  obtain ⟨s, hrun, hgs, -⟩ := hcalls [twoVertices.take 3, twoVertices.drop 3] (by decide +kernel)
  exact ⟨s, hrun, hgs.trans (congrArg (·.m.gs) (hflat (by decide) _))⟩

/-- The log of calls, if they do not read beyond their data. -/
def log (index : Fin 4) (calls : List (List GIFPackedReg)) : Option (List Effect) :=
  ((State.start .idle).transfers logged index calls).map (·.m.gs)

/-- One vertex whose `Q` is not a number. -/
def nanVertex : List GIFPackedReg := [0x412_3000000000008001, 0x7fc00000 <<< 64, 0, 0]

/-- The first path gives up a packet that a call does not end; a call that begins in the last loop
of a packet reads beyond its data; and a combined handler kicks a `Q` that is not a number. -/
theorem not_eq_decoder :
    (¬ ∀ calls calls', calls.flatten = calls'.flatten → log 0 calls = log 0 calls') ∧
    (¬ ∀ calls calls', calls.flatten = calls'.flatten → log 2 calls = log 2 calls') ∧
    ¬ ∀ mem, log 2 [mem] = some (mem.foldl (Decoder.step logged) (.start .idle)).m.gs := by
  refine ⟨fun h => ?_, fun h => ?_, fun h => ?_⟩
  · exact absurd (h [twoVertices.take 3, twoVertices.drop 3] [twoVertices] rfl) (by decide +kernel)
  · exact absurd (h [twoVertices.take 6, twoVertices.drop 6] [twoVertices] rfl) (by decide +kernel)
  · exact absurd (h nanVertex) (by decide +kernel)

end OmegaRed.GSdx
