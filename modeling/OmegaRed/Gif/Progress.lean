import OmegaRed.Gif.Chunking

/-! A run that feeds a path never blocks and comes to an end. -/

namespace OmegaRed.Gif

open Lib.Memory Relation

variable {S : List UInt8} {σ : Type}

theorem Inv.ready {s : State σ} (h : Inv s) (hunread : s.unread = []) :
    (∀ k, s.ee = .realign k → s.path.realignReady) ∧
      ∀ data, s.ee = .wait data → s.path.copyReady data.length := by
  obtain ⟨hplaced, -, hpending, -⟩ := h
  have hoff := hplaced.offset_le
  rw [hunread] at hpending
  refine ⟨fun k hee => ?_, fun data hee => ?_⟩
  · rw [hee] at hpending
    obtain ⟨⟨-, hread⟩, -⟩ := hpending
    simp only [GifPath.realignReady, hplaced.base, hread, total_nil, ge_iff_le, decide_eq_true_eq]
    omega
  · rw [hee] at hpending
    obtain ⟨-, hread⟩ := hpending
    simp only [GifPath.copyReady, hplaced.base, hread, total_nil, Bool.or_eq_true,
      decide_eq_true_eq]
    omega

theorem exists_consumer_step {handlerAD : List UInt8 → σ → Bool × σ} {stats : Stat → Prop}
    {s : State σ} (h : s.unread ≠ []) : ∃ t, Internal handlerAD stats s t := by
  cases hgs : s.gs with
  | some e => exact ⟨_, .fetchSub s e hgs⟩
  | none =>
    cases hqueue : s.queue with
    | nil =>
      rw [State.unread, hgs, hqueue] at h
      exact absurd rfl h
    | cons e queue => exact ⟨_, .consume s e queue hgs hqueue⟩

theorem RunInv.progress {r : Run} (h : RunInv S r) (hfin : ¬ r.Finished) (hover : ¬ r.Overflows) :
    ∃ t, RunStep r t := by
  have hready := h.inv.ready
  cases hee : r.path.ee with
  | idle =>
    cases hdriver : r.driver with
    | feed chunks =>
      cases chunks with
      | nil => exact absurd ⟨hdriver, hee⟩ hfin
      | cons data chunks => exact ⟨_, .copy r data chunks hdriver hee⟩
    | execute chunks => exact ⟨_, .execute r chunks hdriver hee⟩
    | executed chunks => exact ⟨_, .arbitrate r chunks hdriver hee⟩
  | realign k =>
    by_cases hunread : r.path.unread = []
    · exact ⟨_, .internal r _ (.realign _ k hee ((hready hunread).1 k hee))⟩
    · obtain ⟨t, ht⟩ := exists_consumer_step hunread
      exact ⟨_, .internal r t ht⟩
  | wait data =>
    by_cases hunread : r.path.unread = []
    · exact ⟨_, .internal r _ (.wait _ data hee ((hready hunread).2 data hee))⟩
    · obtain ⟨t, ht⟩ := exists_consumer_step hunread
      exact ⟨_, .internal r t ht⟩
  | memcpy data =>
    by_cases hsize : r.path.path.curSize + data.length ≤ buffSize
    · exact ⟨_, .internal r _ (.memcpy _ data hee hsize)⟩
    · exact absurd ⟨data, hee, by omega⟩ hover
  | addBlank k size => exact ⟨_, .internal r _ (.addBlank _ k size hee)⟩
  | sendBlank k size => exact ⟨_, .internal r _ (.sendBlank _ k size hee)⟩
  | move k => exact ⟨_, .internal r _ (.move _ k hee)⟩
  | execute => exact ⟨_, .internal r _ (.execute _ ⟨false, false⟩ hee rfl)⟩
  | loadTag => exact ⟨_, .internal r _ (.loadTag _ ⟨false, false⟩ hee rfl)⟩
  | add pack => exact ⟨_, .internal r _ (.add _ pack hee)⟩
  | send pack => exact ⟨_, .internal r _ (.send _ pack hee)⟩

/-- The steps of a call still to come, at most. -/
def Phase.order : Phase → Nat
  | .execute => 10
  | .realign _ => 9
  | .addBlank _ _ => 8
  | .sendBlank _ _ => 7
  | .move _ => 6
  | .wait _ | .loadTag => 5
  | .memcpy _ => 4
  | .add _ => 2
  | .send _ => 1
  | .idle => 0

/-- The steps of `Execute` on the data at hand still to come, at most, unless the parser
moves on. -/
def Driver.order (done : Bool) : Driver → Nat
  | .executed _ => if done then 60 else 20
  | .execute _ => 40
  | .feed _ => 0

/-- What the EE thread has still to do before the next chunk. -/
def Run.work (r : Run) : Nat :=
  100 * (r.path.path.curSize - r.path.path.curOffset + r.path.ee.data.length) +
    (r.driver.order r.path.done + r.path.ee.order)

/-- What the MTGS thread has still to do. -/
def Run.reads (r : Run) : Nat := 2 * r.path.queue.length + r.path.gs.toList.length

def Less (t r : Run) : Prop :=
  t.driver.chunks.length < r.driver.chunks.length ∨
    t.driver.chunks.length = r.driver.chunks.length ∧
      (t.work < r.work ∨ t.work = r.work ∧ t.reads < r.reads)

theorem RunInv.finish_less {r : Run} {chunks : List (List UInt8)}
    (hdriver : r.driver = .executed chunks) : Less (r.finish chunks) r := by
  have horder : 20 ≤ r.driver.order r.path.done := by
    rw [hdriver, Driver.order]
    split <;> decide
  have hstay : Run.work ⟨.feed chunks, r.path⟩ < r.work := by
    change 100 * (r.path.path.curSize - r.path.path.curOffset + r.path.ee.data.length) +
      (0 + r.path.ee.order) < r.work
    rw [Run.work]
    omega
  refine .inr ⟨by rw [hdriver]; rfl, .inl ?_⟩
  rw [Run.finish]
  split
  · simp only [State.call]
    split
    · change 100 * (r.path.path.curSize - r.path.path.curOffset + 0) + (0 + 2) < r.work
      rw [Run.work]
      omega
    · exact hstay
  · exact hstay

theorem RunInv.afterExec_less {r : Run} (h : RunInv S r) (hstage : r.path.ee.stage = .parsing)
    (horder : 5 ≤ r.path.ee.order)
    {e : Exec (GSRegs × List (List UInt8))} (hok : e.Ok r.path.path) (hmoves : e.Moves r.path.path)
    (hrealign : ∀ q g, e = .realign q g → r.path.ee.order = 10) :
    Less { r with path := r.path.afterExec e } r := by
  obtain ⟨hinv, -, -, hst⟩ := h
  obtain ⟨chunks, hdriver, hdone⟩ : ∃ chunks, r.driver = .executed chunks ∧ r.path.done = false := by
    rw [hstage] at hst
    cases hd : r.driver with
    | executed chunks =>
      rw [hd] at hst
      exact ⟨chunks, rfl, hst⟩
    | feed chunks =>
      rw [hd] at hst
      exact hst.elim
    | execute chunks =>
      rw [hd] at hst
      exact hst.elim
  have hin := hinv.placed.inData
  have hwork : 100 * (r.path.path.curSize - r.path.path.curOffset) + (20 + r.path.ee.order) ≤
      r.work := by
    rw [Run.work, hdriver, hdone]
    change _ ≤ 100 * (r.path.path.curSize - r.path.path.curOffset + r.path.ee.data.length) +
      (20 + r.path.ee.order)
    omega
  refine .inr ⟨rfl, .inl (Nat.lt_of_lt_of_le ?_ hwork)⟩
  cases e with
  | again q g =>
    have hsize := hok.1.curSize
    have hmoves : r.path.path.curOffset < q.curOffset := hmoves
    have hle := hok.1.placed.inData
    rw [Run.work, hdriver]
    change 100 * (q.curSize - q.curOffset + 0) +
      ((if r.path.done then 60 else 20) + 10) < _
    rw [hdone, if_neg (by decide)]
    omega
  | realign q g =>
    have horder := hrealign q g rfl
    obtain ⟨rfl, -⟩ := hok
    rw [Run.work, hdriver, horder]
    change 100 * (r.path.path.curSize - r.path.path.curOffset + 0) +
      ((if r.path.done then 60 else 20) + 9) < _
    rw [hdone, if_neg (by decide)]
    omega
  | exit q g =>
    have hsize := hok.1.curSize
    have hle := hok.1.curOffset_le hinv.placed
    rw [Run.work, hdriver]
    change 100 * (q.curSize - q.curOffset + 0) + ((if r.path.done then 60 else 20) + 0) < _
    rw [hdone, if_neg (by decide)]
    omega
  | done q g pack =>
    obtain ⟨-, -, -, -, -, -, hle, hsize, -⟩ := hok
    have hmoves : r.path.path.curOffset < q.curOffset := hmoves
    rw [Run.work, hdriver]
    change 100 * (q.curSize - q.curOffset + 0) + (60 + 2) < _
    omega

theorem At.valid {pos : Nat} {t : GifTag} {calls : List (List UInt8)} (h : At S pos t calls)
    (hvalid : t.isValid = true) : t.hasAD = true ∧ t.nLoop ≠ 0 := by
  cases h with
  | tag hnot => exact absurd (hvalid.symm.trans hnot) (by simp)
  | data tagPos n before ht hAD hloop => exact ⟨by rw [ht, hasAD_iterate, hAD], hloop⟩

theorem less_of_order {r : Run} {t : State (GSRegs × List (List UInt8))}
    (hleft : t.path.curSize - t.path.curOffset + t.ee.data.length =
      r.path.path.curSize - r.path.path.curOffset + r.path.ee.data.length)
    (hdone : t.done = r.path.done) (horder : t.ee.order < r.path.ee.order) :
    Less { r with path := t } r := by
  refine .inr ⟨rfl, .inl ?_⟩
  simp only [Run.work, hleft, hdone]
  omega

theorem less_of_reads {r : Run} {t : State (GSRegs × List (List UInt8))}
    (hcurSize : t.path.curSize = r.path.path.curSize)
    (hcurOffset : t.path.curOffset = r.path.path.curOffset)
    (hee : t.ee = r.path.ee) (hdone : t.done = r.path.done)
    (hreads : 2 * t.queue.length + t.gs.toList.length < r.reads) :
    Less { r with path := t } r := by
  refine .inr ⟨rfl, .inr ⟨?_, hreads⟩⟩
  simp only [Run.work, hcurSize, hcurOffset, hee, hdone]

theorem RunInv.internal_less {r : Run} (h : RunInv S r)
    {t : State (GSRegs × List (List UInt8))} (hst : Internal logged NotPath3 r.path t) :
    Less { r with path := t } r := by
  have hplaced := h.inv.placed
  have hin := hplaced.inData
  cases hst with
  | realign k hee hready =>
    refine less_of_order ?_ rfl ?_
    · rw [hee]
      dsimp only
      split <;> rfl
    · rw [hee]
      dsimp only
      split <;> simp only [Phase.order] <;> decide
  | addBlank k size hee =>
    exact less_of_order (by rw [hee]; rfl) rfl (by simp only [hee, Phase.order]; decide)
  | sendBlank k size hee =>
    exact less_of_order (by rw [hee]; rfl) rfl (by simp only [hee, Phase.order]; decide)
  | move k hee =>
    have hpk := hplaced.packet
    have hdata : k.phase.data = (Phase.move k).data := by cases k <;> rfl
    have horder : k.phase.order < (Phase.move k).order := by
      cases k <;> simp only [After.phase, Phase.order] <;> decide
    refine less_of_order ?_ rfl (hee ▸ horder)
    rw [hee, ← hdata]
    simp only [GifPath.moveToFront, hplaced.base]
    omega
  | wait data hee hready =>
    exact less_of_order (by rw [hee]; rfl) rfl (by simp only [hee, Phase.order]; decide)
  | memcpy data hee hsize =>
    refine less_of_order ?_ rfl (by simp only [hee, Phase.order]; decide)
    rw [hee]
    simp only [GifPath.append, Phase.data, List.length_nil]
    omega
  | execute stat hee hstat =>
    exact h.afterExec_less (by rw [hee]; rfl) (by rw [hee]; decide)
      (executeGSPacket_ok _ hplaced h.inv.valid)
      (executeGSPacket_moves _ hplaced h.parsed.valid) (fun _ _ _ => by rw [hee]; rfl)
  | loadTag stat hee hstat =>
    have hpend := h.inv.pending
    rw [hee] at hpend
    obtain ⟨-, hsize, -⟩ := hpend
    exact h.afterExec_less (by rw [hee]; rfl) (by rw [hee]; decide)
      (loadTag_ok _ hplaced hsize) (loadTag_moves _ hplaced hsize)
      (fun q g heq => absurd heq (loadTag_ne_realign _ _ q g))
  | add pack hee =>
    exact less_of_order (by rw [hee]; rfl) rfl (by simp only [hee, Phase.order]; decide)
  | send pack hee =>
    exact less_of_order (by rw [hee]; rfl) rfl (by simp only [hee, Phase.order]; decide)
  | consume e queue hgs hqueue =>
    refine less_of_reads rfl rfl rfl rfl ?_
    simp only [Run.reads, hgs, hqueue, List.length_cons, Option.toList_some, Option.toList_none,
      List.length_nil]
    omega
  | fetchSub e hgs =>
    refine less_of_reads rfl rfl rfl rfl ?_
    simp only [Run.reads, hgs, List.length_cons, Option.toList_some, Option.toList_none,
      List.length_nil]
    omega

theorem RunInv.less {r t : Run} (h : RunInv S r) (hst : RunStep r t) : Less t r := by
  cases hst with
  | copy data chunks hdriver hee =>
    left
    rw [hdriver]
    exact Nat.lt_succ_self _
  | execute chunks hdriver hee =>
    refine .inr ⟨by rw [hdriver]; rfl, .inl ?_⟩
    rw [Run.work, Run.work, hdriver, hee]
    change 100 * (r.path.path.curSize - r.path.path.curOffset + 0) + (20 + 10) <
      100 * (r.path.path.curSize - r.path.path.curOffset + 0) + (40 + 0)
    omega
  | arbitrate chunks hdriver hee =>
    rw [Run.arbitrate]
    by_cases hround : r.path.done && !r.path.path.isDone
    · have hdone : r.path.done = true := by simp_all
      rw [if_pos hround]
      refine .inr ⟨by rw [hdriver]; rfl, .inl ?_⟩
      rw [Run.work, Run.work, hdriver]
      change 100 * (r.path.path.curSize - r.path.path.curOffset + r.path.ee.data.length) +
        (40 + r.path.ee.order) <
          100 * (r.path.path.curSize - r.path.path.curOffset + r.path.ee.data.length) +
            ((if r.path.done then 60 else 20) + r.path.ee.order)
      rw [hdone, if_pos rfl]
      omega
    · rw [if_neg hround]
      exact finish_less hdriver
  | internal t hst => exact h.internal_less hst

theorem RunInv.ends {r : Run} (hsig : NoSignal S) (h : RunInv S r) :
    ∃ t, ReflTransGen RunStep r t ∧ (t.Finished ∨ t.Overflows) := by
  by_cases hfin : r.Finished
  · exact ⟨r, .refl, .inl hfin⟩
  by_cases hover : r.Overflows
  · exact ⟨r, .refl, .inr hover⟩
  obtain ⟨s, hs⟩ := h.progress hfin hover
  have hless := h.less hs
  exact Lib.Run.reaches_of_step hs ((h.step hsig hs).ends hsig)
termination_by (r.driver.chunks.length, r.work, r.reads)
decreasing_by
  rcases hless with hlt | ⟨heq, hlt | ⟨heq', hlt⟩⟩
  · exact .left _ _ hlt
  · exact heq ▸ .right _ (.left _ _ hlt)
  · exact heq ▸ .right _ (heq' ▸ .right _ hlt)

/-- A chunk about to be copied fits, or the packet in hand is at the front. -/
def Fits (s : State σ) : Prop :=
  ∀ data, s.ee = .wait data ∨ s.ee = .memcpy data →
    s.path.gsPack.offset = 0 ∨ s.path.curSize + data.length ≤ buffSize

theorem Fits.of_stage {s : State σ} (h : s.ee.stage ≠ .copying) : Fits s := by
  rintro data (hee | hee)
  · exact absurd (congrArg Phase.stage hee) h
  · exact absurd (congrArg Phase.stage hee) h

theorem Fits.of_eq {s t : State σ} (h : Fits s) (hee : t.ee = s.ee)
    (hoffset : t.path.gsPack.offset = s.path.gsPack.offset)
    (hcurSize : t.path.curSize = s.path.curSize) : Fits t := by
  intro data hdata
  rw [hee] at hdata
  rw [hoffset, hcurSize]
  exact h data hdata

theorem Fits.internal {handlerAD : List UInt8 → σ → Bool × σ} {stats : Stat → Prop}
    {s t : State σ} (h : Fits s) (hst : Internal handlerAD stats s t) : Fits t := by
  have hexec (e : Exec σ) : Fits (s.afterExec e) := by
    refine .of_stage ?_
    cases e <;> exact fun hc => by cases hc
  cases hst with
  | realign k hee hready =>
    rintro data (hdata | hdata)
    · dsimp only at hdata
      split at hdata <;> cases hdata
    · dsimp only at hdata
      split at hdata <;> cases hdata
  | addBlank k size hee => rintro data (hdata | hdata) <;> cases hdata
  | sendBlank k size hee => rintro data (hdata | hdata) <;> cases hdata
  | move k hee => exact fun _ _ => .inl rfl
  | wait data hee hready =>
    rintro data' (hdata | hdata)
    · cases hdata
    · obtain rfl := Phase.memcpy.inj hdata
      exact h data (.inl hee)
  | memcpy data hee hsize => exact .of_stage fun hc => by cases hc
  | execute stat hee hstat => exact hexec _
  | loadTag stat hee hstat => exact hexec _
  | add pack hee => exact .of_stage fun hc => by cases hc
  | send pack hee => exact .of_stage fun hc => by cases hc
  | consume e queue hgs hqueue => exact h.of_eq rfl rfl rfl
  | fetchSub e hgs => exact h.of_eq rfl rfl rfl

theorem Fits.step {r t : Run} (h : Fits r.path) (hst : RunStep r t) : Fits t.path := by
  cases hst with
  | copy data chunks hdriver hee =>
    rintro data' (hdata | hdata)
    · simp only [State.call] at hdata ⊢
      split at hdata
      · cases hdata
      · obtain rfl := Phase.wait.inj hdata
        exact .inr (by omega)
    · simp only [State.call] at hdata
      split at hdata <;> cases hdata
  | execute chunks hdriver hee => exact .of_stage fun hc => by cases hc
  | arbitrate chunks hdriver hee =>
    rw [Run.arbitrate]
    split
    · exact h
    · rw [Run.finish]
      dsimp only
      split
      · simp only [State.call]
        split
        · exact .of_stage fun hc => by cases hc
        · exact h
      · exact h
  | internal t hst => exact h.internal hst

theorem RunInv.not_overflows {r : Run} (h : RunInv S r) (hfits : Fits r.path)
    (hsize : S.length ≤ buffSize) : ¬ r.Overflows := by
  rintro ⟨data, hee, hover⟩
  obtain hfront | hfit := hfits data (.inr hee)
  · have hlen := congrArg List.length h.content
    have hrest : r.path.path.rest.length = r.path.path.curSize := by
      rw [GifPath.rest, length_load, hfront, Nat.sub_zero]
    rw [hee] at hlen
    simp only [List.length_append, hrest, Phase.data] at hlen
    omega
  · omega

end OmegaRed.Gif
