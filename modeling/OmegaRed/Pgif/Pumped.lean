import OmegaRed.Pgif.Dma
import Mathlib.Tactic.Common

/-! What every access to the interface keeps of a transfer, whichever engine makes it. -/

namespace OmegaRed.Pgif

open Lib.Traces

namespace DataFifo

variable {f : DataFifo}

/-- The words of the transfer that have left the queue or are in it. -/
def sent (f : DataFifo) : List U32 := ((f.left ++ f.ring.words).filter Word.dma).map Word.data

/-- No word of the transfer is in the queue. -/
def Foreign (f : DataFifo) : Prop := ∀ w ∈ f.ring.words, w.dma = false

structure Intact (f : DataFifo) : Prop where
  ok : f.ring.Ok
  size_eq : f.ring.size = pgifDatRbSz
  kept : ∀ w ∈ f.lost, w.dma = false

theorem ring_put (f : DataFifo) (w : Word) : (f.put w).ring = f.ring.put w := rfl

theorem Intact.put (h : f.Intact) {w : Word} (hroom : w.dma = true → f.ring.count < f.ring.size) :
    (f.put w).Intact where
  ok := h.ok.put w
  size_eq := by rw [ring_put, RingBuf.size_put, h.size_eq]
  kept x hx := by
    rw [DataFifo.put] at hx
    dsimp only at hx
    split at hx
    · exact h.kept x hx
    · rename_i hfull
      obtain hx | hx := List.mem_append.mp hx
      · exact h.kept x hx
      · rw [List.mem_singleton.mp hx]
        cases hdma : w.dma with
        | false => rfl
        | true => exact absurd (hroom hdma) hfull

theorem sent_put_dma (h : f.Intact) (hroom : f.ring.count < f.ring.size) (data : U32) :
    (f.put ⟨data, true⟩).sent = f.sent ++ [data] := by
  simp only [sent, ring_put, RingBuf.words_put h.ok hroom, List.filter_append, List.map_append,
    List.append_assoc]
  rfl

theorem sent_put_port (h : f.Intact) (data : U32) : (f.put ⟨data, false⟩).sent = f.sent := by
  by_cases hroom : f.ring.count < f.ring.size
  · simp only [sent, ring_put, RingBuf.words_put h.ok hroom, List.filter_append, List.map_append]
    exact congrArg _ (List.append_nil _)
  · have hring : f.ring.put ⟨data, false⟩ = f.ring := by rw [RingBuf.put, if_neg hroom]
    rw [sent, ring_put, hring]
    rfl

theorem get_none (h : ¬0 < f.ring.count) : f.get = (none, f) := by
  rw [DataFifo.get, RingBuf.get, if_neg h]

theorem get_some (h : f.Intact) (hpos : 0 < f.ring.count) :
    ∃ w : Word, f.get = (some w.data, { f with ring := f.ring.get.2, left := f.left ++ [w] }) ∧
      f.ring.words = w :: f.ring.get.2.words := by
  obtain ⟨w, hw, hwords⟩ := RingBuf.words_get h.ok hpos
  refine ⟨w, ?_, hwords⟩
  rw [DataFifo.get]
  rcases hget : f.ring.get with ⟨a, ring⟩
  rw [hget] at hw
  cases hw
  rfl

theorem Intact.get (h : f.Intact) : f.get.2.Intact ∧ f.get.2.sent = f.sent := by
  by_cases hpos : 0 < f.ring.count
  · obtain ⟨w, hget, hwords⟩ := get_some h hpos
    rw [hget]
    refine ⟨⟨h.ok.get, (RingBuf.size_get _).trans h.size_eq, h.kept⟩, ?_⟩
    simp only [sent, hwords, List.append_assoc, List.singleton_append]
  · rw [get_none hpos]
    exact ⟨h, rfl⟩

theorem Intact.clear (h : f.Intact) (hforeign : f.Foreign) :
    f.clear.Intact ∧ f.clear.sent = f.sent := by
  refine ⟨⟨h.ok.clear, h.size_eq, fun w hw => ?_⟩, ?_⟩
  · obtain hw | hw := List.mem_append.mp hw
    · exact h.kept w hw
    · exact hforeign w hw
  · have hnone : f.ring.words.filter Word.dma = [] := by
      rw [List.filter_eq_nil_iff]
      intro w hw
      rw [hforeign w hw]
      decide
    simp only [sent, DataFifo.clear, RingBuf.words_clear, List.filter_append, hnone,
      List.filter_nil]

end DataFifo

/-- A command that clears the queue of data is not taken while words of the transfer are in it, and
nobody writes to the registers of the channel. -/
def Keeps (s : State) : Event → Prop
  | .pgifR addr => addr = pgpuCmdFifo → State.cmdNr (s.cmd.get.1.getD 0) ≤ 1 → s.dat.Foreign
  | .psxDma2GpuW _ _ => False
  | _ => True

/-- The driver writes to the queue of data. -/
def Event.Writes : Event → Prop
  | .pgifW addr _ => addr = pgpuDatFifo
  | .pgifWQword addr _ _ _ _ => addr = pgpuDatFifo
  | _ => False

namespace State

variable {mem : U32 → U32} {s t : State}

/-- `t` has the channel as `s` has it, and the same words of the transfer. -/
structure Beside (s t : State) : Prop where
  dma : t.dma = s.dma
  stored : t.stored = s.stored
  intact : t.dat.Intact
  sent : t.dat.sent = s.dat.sent

theorem beside_of_eq (h : s.dat.Intact) (hdat : t.dat = s.dat) (hdma : t.dma = s.dma)
    (hstored : t.stored = s.stored) : Beside s t :=
  ⟨hdma, hstored, hdat ▸ h, by rw [hdat]⟩

theorem Beside.trans {u : State} (h : Beside s t) (h' : Beside t u) : Beside s u :=
  ⟨h'.dma.trans h.dma, h'.stored.trans h.stored, h'.intact, h'.sent.trans h.sent⟩

theorem beside_put (h : s.dat.Intact) (data : U32) :
    Beside s { s with dat := s.dat.put ⟨data, false⟩ } :=
  ⟨rfl, rfl, h.put fun hdma => absurd hdma Bool.false_ne_true, DataFifo.sent_put_port h data⟩

theorem beside_clear (h : s.dat.Intact) (hforeign : s.dat.Foreign) :
    Beside s { s with dat := s.dat.clear } :=
  ⟨rfl, rfl, (h.clear hforeign).1, (h.clear hforeign).2⟩

theorem beside_datRingBufGet (h : s.dat.Intact) : Beside s s.datRingBufGet.2 := by
  have hintact := h.get
  rw [datRingBufGet]
  rcases hget : s.dat.get with ⟨data, dat⟩
  rw [hget] at hintact
  cases data with
  | none => exact ⟨rfl, rfl, h, rfl⟩
  | some data => exact ⟨rfl, rfl, hintact.1, hintact.2⟩

theorem beside_datRingBufGet4 (h : s.dat.Intact) : Beside s s.datRingBufGet4.2 := by
  have h0 := beside_datRingBufGet h
  have h1 := h0.trans (beside_datRingBufGet h0.intact)
  have h2 := h1.trans (beside_datRingBufGet h1.intact)
  have h3 := h2.trans (beside_datRingBufGet h2.intact)
  simpa only [datRingBufGet4] using h3

theorem beside_reset (h : s.dat.Intact) (hforeign : s.dat.Foreign) :
    Beside s s.ackGpuIrq.pgifReset :=
  (beside_clear h hforeign).trans (beside_of_eq (h.clear hforeign).1 rfl rfl rfl)

theorem drainPgpuDmaLl_of_idle (h : s.dma.pgpuDmaLlAct = false) : s.drainPgpuDmaLl mem = s := by
  rw [drainPgpuDmaLl, if_pos h]

theorem drainPgpuDmaNrToGpu_of_idle (h : s.dma.pgpuDmaNrActToGpu = false) :
    s.drainPgpuDmaNrToGpu mem = s := by
  rw [drainPgpuDmaNrToGpu, if_pos h]

theorem drainPgpuDmaNrToIop_of_idle (h : s.dma.pgpuDmaNrActToIop = false) :
    s.drainPgpuDmaNrToIop = s := by
  rw [drainPgpuDmaNrToIop]
  cases s.dat.ring.count with
  | zero => rfl
  | succ n => rw [drainToIop, if_pos h]

/-- One round of the loop in `fillFifoOnDrain`. -/
def round (mem : U32 → U32) (s : State) : State := (s.drainPgpuDmaLl mem).drainPgpuDmaNrToGpu mem

theorem stopped_of_not (h : ¬(¬s.Full ∧ s.active = true)) : s.Full ∨ s.active = false := by
  by_cases hfull : s.Full
  · exact .inl hfull
  · exact .inr (Bool.eq_false_iff.mpr fun hactive => h ⟨hfull, hactive⟩)

theorem round_of_stopped (h : ¬(¬s.Full ∧ s.active = true)) : s.round mem = s := by
  have hstopped : s.Full ∨ s.dma.pgpuDmaNrActToGpu = false ∧ s.dma.pgpuDmaLlAct = false := by
    have hstopped := stopped_of_not h
    rwa [active, Bool.or_eq_false_iff] at hstopped
  have hlist : s.drainPgpuDmaLl mem = s := by
    rw [drainPgpuDmaLl]
    obtain hfull | hidle := hstopped
    · rw [if_pos hfull, ite_self]
    · rw [if_pos hidle.2]
  rw [round, hlist, drainPgpuDmaNrToGpu]
  obtain hfull | hidle := hstopped
  · rw [if_pos hfull, ite_self]
  · rw [if_pos hidle.1]

end State

open State

/-- `E k` holds of the states of a transfer from which the loop takes at most `k` rounds more. -/
structure Pumped (mem : U32 → U32) (E : Nat → State → Prop) : Prop where
  intact : ∀ {k s}, E k s → s.dat.Intact
  beside : ∀ {k s t}, E k s → Beside s t → E k t
  list : ∀ {k s}, E k s → ∃ j ≤ k, E j (s.drainPgpuDmaLl mem)
  round : ∀ {k s}, E k s → ¬s.Full → s.active = true → ∃ j < k, E j (s.round mem)

namespace Pumped

variable {mem : U32 → U32} {E : Nat → State → Prop} {s : State} {k n : Nat}

theorem fillFifo (h : Pumped mem E) (hs : E k s) (hn : k < n) :
    ∃ t, s.fillFifo mem n = some t ∧ (∃ j ≤ k, E j t) ∧ (t.Full ∨ t.active = false) := by
  induction n generalizing k s with
  | zero => omega
  | succ n ih =>
    rw [State.fillFifo]
    by_cases hgo : ¬s.Full ∧ s.active = true
    · obtain ⟨j, hj, hround⟩ := h.round hs hgo.1 hgo.2
      obtain ⟨t, ht, ⟨i, hi, hE⟩, hstop⟩ := ih hround (by omega)
      rw [if_pos hgo]
      exact ⟨t, ht, ⟨i, by omega, hE⟩, hstop⟩
    · rw [if_neg hgo]
      exact ⟨s, rfl, ⟨k, Nat.le_refl k, hs⟩, stopped_of_not hgo⟩

/-- The loop comes to its end, and a requested one only where it has no more to do. -/
theorem fillFifoOnDrain (h : Pumped mem E) (hs : E k s) (hn : k < n) :
    ∃ t, s.fillFifoOnDrain mem n = some t ∧ (∃ j ≤ k, E j t) ∧
      (s.getUpdPgifCtrlReg.pGifCtrlReg &&& 8 ≠ 0 → t.Full ∨ t.active = false) := by
  have hupd : E k s.getUpdPgifCtrlReg := h.beside hs (beside_of_eq (h.intact hs) rfl rfl rfl)
  rw [State.fillFifoOnDrain]
  split
  · rename_i hoff
    exact ⟨_, rfl, ⟨k, Nat.le_refl k, hupd⟩, fun hon => absurd hoff hon⟩
  · obtain ⟨j, hj, hround⟩ : ∃ j ≤ k, E j (s.getUpdPgifCtrlReg.round mem) := by
      by_cases hgo : ¬s.getUpdPgifCtrlReg.Full ∧ s.getUpdPgifCtrlReg.active = true
      · obtain ⟨j, hj, hround⟩ := h.round hupd hgo.1 hgo.2
        exact ⟨j, Nat.le_of_lt hj, hround⟩
      · rw [round_of_stopped hgo]
        exact ⟨k, Nat.le_refl k, hupd⟩
    obtain ⟨t, ht, ⟨i, hi, hE⟩, hstop⟩ := h.fillFifo hround (Nat.lt_of_le_of_lt hj hn)
    have hbeside : Beside t t.clearRequest := by
      rw [clearRequest]
      split
      · exact beside_of_eq (h.intact hE) rfl rfl rfl
      · exact beside_of_eq (h.intact hE) rfl rfl rfl
    refine ⟨t.clearRequest, ?_, ⟨i, Nat.le_trans hi hj, h.beside hE hbeside⟩, fun _ => ?_⟩
    · rw [← State.round, ht]
      rfl
    · rw [clearRequest]
      split
      · exact hstop
      · exact hstop

theorem cmdRingBufGet (h : Pumped mem E) (hs : E k s)
    (hkeeps : cmdNr (s.cmd.get.1.getD 0) ≤ 1 → s.dat.Foreign) :
    ∃ j ≤ k, E j (s.cmdRingBufGet mem).2 := by
  have hintact := h.intact hs
  rw [State.cmdRingBufGet]
  dsimp only
  generalize s.cmd.get.1.getD 0 = data at hkeeps
  have hcmd : Beside s { s with cmd := s.cmd.get.2 } := beside_of_eq hintact rfl rfl rfl
  rw [ckhCmdSetPgif]
  split
  · rename_i hnr
    have hclear := beside_clear hcmd.intact (hkeeps (by omega))
    have hreset := (hcmd.trans hclear).trans
      (beside_reset hclear.intact fun w hw => absurd hw List.not_mem_nil)
    exact ⟨k, Nat.le_refl k, h.beside hs (hreset.trans (beside_put hreset.intact 0))⟩
  · rename_i hnr
    exact ⟨k, Nat.le_refl k, h.beside hs (hcmd.trans (beside_clear hcmd.intact (hkeeps (by omega))))⟩
  · exact ⟨k, Nat.le_refl k, h.beside hs (beside_of_eq hintact rfl rfl rfl)⟩
  · exact h.list (h.beside hs (beside_of_eq hintact rfl rfl rfl))
  · exact ⟨k, Nat.le_refl k, h.beside hs hcmd⟩

theorem pgifR (h : Pumped mem E) (hs : E k s) (hn : k < n) {addr : U32}
    (hkeeps : Keeps s (.pgifR addr)) :
    ∃ t, State.step mem n s (.pgifR addr) = some t ∧ ∃ j ≤ k, E j t := by
  have hintact := h.intact hs
  rw [State.step, State.pgifR]
  split_ifs with hcmd hdat
  · exact ⟨_, rfl, h.cmdRingBufGet hs (hkeeps hcmd)⟩
  · obtain ⟨t, ht, ⟨j, hj, hE⟩, -⟩ := h.fillFifoOnDrain hs hn
    rw [ht]
    exact ⟨_, rfl, j, hj, h.beside hE (beside_datRingBufGet (h.intact hE))⟩
  all_goals exact ⟨_, rfl, k, Nat.le_refl k, h.beside hs (beside_of_eq hintact rfl rfl rfl)⟩

theorem pgifRQword (h : Pumped mem E) (hs : E k s) (hn : k < n) (addr : U32) :
    ∃ t, State.step mem n s (.pgifRQword addr) = some t ∧ ∃ j ≤ k, E j t := by
  rw [State.step, State.pgifRQword]
  split_ifs
  · obtain ⟨t, ht, ⟨j, hj, hE⟩, -⟩ := h.fillFifoOnDrain hs hn
    obtain ⟨u, hu, ⟨i, hi, hE'⟩, -⟩ := h.fillFifoOnDrain
      (h.beside hE (beside_datRingBufGet4 (h.intact hE))) (Nat.lt_of_le_of_lt hj hn)
    rw [ht, Option.bind_some, hu]
    exact ⟨u, rfl, i, Nat.le_trans hi hj, hE'⟩
  · exact ⟨s, rfl, k, Nat.le_refl k, hs⟩

theorem pgifW (h : Pumped mem E) (hs : E k s) (hn : k < n) {addr data : U32}
    (hdrain : addr = pgpuDatFifo → ∀ {t}, E k t → E k t.drainPgpuDmaNrToIop) :
    ∃ t, State.step mem n s (.pgifW addr data) = some t ∧ ∃ j ≤ k, E j t := by
  have hintact := h.intact hs
  rw [State.step, State.pgifW]
  split_ifs with hdat hstat hctrl
  · exact ⟨_, rfl, k, Nat.le_refl k, hdrain hdat (h.beside hs (beside_put hintact data))⟩
  · exact ⟨_, rfl, k, Nat.le_refl k, h.beside hs (beside_of_eq hintact rfl rfl rfl)⟩
  · have hE : E k { s with pGifCtrlReg := data } := h.beside hs (beside_of_eq hintact rfl rfl rfl)
    obtain ⟨t, ht, hfill, -⟩ := h.fillFifoOnDrain hE hn
    exact ⟨t, ht, hfill⟩
  all_goals exact ⟨_, rfl, k, Nat.le_refl k, h.beside hs (beside_of_eq hintact rfl rfl rfl)⟩

theorem pgifWQword (h : Pumped mem E) (hs : E k s) {addr d0 d1 d2 d3 : U32}
    (hdrain : addr = pgpuDatFifo → ∀ {t}, E k t → E k t.drainPgpuDmaNrToIop) :
    E k (s.pgifWQword addr d0 d1 d2 d3) := by
  rw [State.pgifWQword]
  split_ifs with hdat
  · have h0 := beside_put (h.intact hs) d0
    have h1 := h0.trans (beside_put h0.intact d1)
    have h2 := h1.trans (beside_put h1.intact d2)
    exact hdrain hdat (h.beside hs (h2.trans (beside_put h2.intact d3)))
  · exact hs

theorem psxGPUw (h : Pumped mem E) (hs : E k s) (addr data : U32) : E k (s.psxGPUw addr data) := by
  have hintact := h.intact hs
  rw [State.psxGPUw]
  split_ifs
  · exact h.beside hs (beside_put hintact data)
  · exact h.beside hs (beside_of_eq hintact rfl rfl rfl)
  · exact h.beside hs (beside_of_eq hintact rfl rfl rfl)
  · exact hs

theorem psxGPUr (h : Pumped mem E) (hs : E k s) (addr : U32) : E k (s.psxGPUr addr).2 := by
  have hintact := h.intact hs
  rw [State.psxGPUr]
  split_ifs
  · exact h.beside hs (beside_datRingBufGet hintact)
  · exact h.beside hs (beside_of_eq hintact rfl rfl rfl)
  · exact hs

theorem psxDma2GpuR (h : Pumped mem E) (hs : E k s) (addr : U32) : E k (s.psxDma2GpuR addr).2 := by
  rw [State.psxDma2GpuR]
  dsimp only
  split_ifs
  all_goals exact h.beside hs (beside_of_eq (h.intact hs) rfl rfl rfl)

theorem step (h : Pumped mem E) (hs : E k s) (hn : k < n) {ev : Event} (hkeeps : Keeps s ev)
    (hdrain : ev.Writes → ∀ {t}, E k t → E k t.drainPgpuDmaNrToIop) :
    ∃ t, State.step mem n s ev = some t ∧ ∃ j ≤ k, E j t := by
  cases ev with
  | psxGPUw addr data => exact ⟨_, rfl, k, Nat.le_refl k, h.psxGPUw hs addr data⟩
  | psxGPUr addr => exact ⟨_, rfl, k, Nat.le_refl k, h.psxGPUr hs addr⟩
  | pgifW addr data => exact h.pgifW hs hn hdrain
  | pgifR addr => exact h.pgifR hs hn hkeeps
  | pgifWQword addr d0 d1 d2 d3 => exact ⟨_, rfl, k, Nat.le_refl k, h.pgifWQword hs hdrain⟩
  | pgifRQword addr => exact h.pgifRQword hs hn addr
  | psxDma2GpuR addr => exact ⟨_, rfl, k, Nat.le_refl k, h.psxDma2GpuR hs addr⟩
  | psxDma2GpuW addr data => exact absurd hkeeps id

end Pumped

end OmegaRed.Pgif
