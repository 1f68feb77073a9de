import OmegaRed.MTVU.Ring
import Mathlib.Data.List.ReduceOption

/-! The VU ring is a FIFO as long as the writer never wraps onto a reader that
stands at position 0 or on the previous lap. -/

namespace OmegaRed.MTVU

open Lib.Memory Relation

variable {buffer : Nat → UInt8} {r w : Nat}

def commandWords (cs : List Command) : Nat := (cs.map Command.words).sum

def commandPattern (cs : List Command) : List (Option UInt8) := cs.flatMap Command.pattern

@[simp] theorem commandWords_cons (c : Command) (cs : List Command) :
    commandWords (c :: cs) = c.words + commandWords cs := rfl

@[simp] theorem commandWords_append (cs ds : List Command) :
    commandWords (cs ++ ds) = commandWords cs + commandWords ds := by
  simp [commandWords]

@[simp] theorem length_commandPattern (cs : List Command) :
    (commandPattern cs).length = 4 * commandWords cs := by
  induction cs with
  | nil => rfl
  | cons c cs ih =>
    simp only [commandPattern] at ih
    simp [commandPattern, ih, Command.pattern, Command.words]
    omega

/-- The commands `cs` fill the ring from `r` to `w`. -/
def Straight (buffer : Nat → UInt8) (r w : Nat) (cs : List Command) : Prop :=
  Laid buffer (4 * r) (commandPattern cs) ∧ w = r + commandWords cs

theorem Straight.nil (buffer : Nat → UInt8) (r : Nat) : Straight buffer r r [] :=
  ⟨laid_nil _ _, rfl⟩

theorem straight_cons {c : Command} {cs : List Command} :
    Straight buffer r w (c :: cs) ↔
      Laid buffer (4 * r) c.pattern ∧ Straight buffer (r + c.words) w cs := by
  have hlen : c.pattern.length = 4 * c.words := by simp [Command.pattern, Command.words]
  simp only [Straight, commandPattern, List.flatMap_cons, laid_append, hlen, commandWords_cons,
    ← Nat.add_assoc, Nat.mul_add]
  tauto

theorem Straight.snoc {c : Command} {cs : List Command} (h : Straight buffer r w cs)
    (hc : Laid buffer (4 * w) c.pattern) : Straight buffer r (w + c.words) (cs ++ [c]) := by
  obtain ⟨hcs, rfl⟩ := h
  refine ⟨?_, ?_⟩
  · simp only [commandPattern, List.flatMap_append, List.flatMap_singleton, laid_append]
    refine ⟨hcs, ?_⟩
    have := length_commandPattern cs
    simp only [commandPattern] at this
    rwa [this, ← Nat.mul_add]
  · simp [commandWords, Nat.add_assoc]

theorem Straight.le {cs : List Command} (h : Straight buffer r w cs) : r ≤ w := by
  obtain ⟨-, rfl⟩ := h
  omega

theorem Straight.store_disjoint {cs : List Command} {a : Nat} {l : List UInt8}
    (h : Straight buffer r w cs) (hd : 4 * w ≤ a ∨ a + l.length ≤ 4 * r) :
    Straight (store buffer a l) r w cs := by
  obtain ⟨hcs, rfl⟩ := h
  refine ⟨hcs.store_disjoint l ?_, rfl⟩
  rw [length_commandPattern]
  omega

/-- The packets between the two positions: in one piece, or up to a null packet at
`e` and on from the start of the ring. -/
inductive Layout (buffer : Nat → UInt8) (r w : Nat) : List (Option Command) → Prop
  | straight (cs : List Command) : Straight buffer r w cs → Layout buffer r w (cs.map some)
  | wrapped (e : Nat) (cs ds : List Command) : Straight buffer r e cs →
      Laid buffer (4 * e) nullPacket.pattern → Straight buffer 0 w ds → w < r → e < bufferSize →
      Layout buffer r w (cs.map some ++ none :: ds.map some)

def next (pos : Nat) : Option Command → Nat
  | some c => pos + c.words
  | none => 0

theorem Layout.execute {p : Option Command} {ps : List (Option Command)}
    (h : Layout buffer r w (p :: ps)) :
    executeRingBuffer buffer r = some (p, next r p) := by
  generalize hq : p :: ps = q at h
  cases h with
  | straight cs hcs =>
    cases cs with
    | nil => simp at hq
    | cons c cs =>
      obtain ⟨rfl, -⟩ := by simpa using hq
      exact executeRingBuffer_command (straight_cons.mp hcs).1
  | wrapped e cs ds hcs hnull hds hlt he =>
    cases cs with
    | nil =>
      obtain ⟨rfl, -⟩ := by simpa using hq
      obtain ⟨-, rfl⟩ := hcs
      exact executeRingBuffer_null hnull
    | cons c cs =>
      obtain ⟨rfl, -⟩ := by simpa using hq
      exact executeRingBuffer_command (straight_cons.mp hcs).1

theorem Layout.tail {p : Option Command} {ps : List (Option Command)}
    (h : Layout buffer r w (p :: ps)) : Layout buffer (next r p) w ps := by
  generalize hq : p :: ps = q at h
  cases h with
  | straight cs hcs =>
    cases cs with
    | nil => simp at hq
    | cons c cs =>
      obtain ⟨rfl, rfl⟩ := by simpa using hq
      exact .straight cs (straight_cons.mp hcs).2
  | wrapped e cs ds hcs hnull hds hlt he =>
    cases cs with
    | nil =>
      obtain ⟨rfl, rfl⟩ := by simpa using hq
      exact .straight ds hds
    | cons c cs =>
      obtain ⟨rfl, rfl⟩ := by simpa using hq
      refine .wrapped e cs ds (straight_cons.mp hcs).2 hnull hds ?_ he
      simp only [next]
      omega

theorem Layout.eq_iff {ps : List (Option Command)} (h : Layout buffer r w ps) :
    r = w ↔ ps = [] := by
  cases h with
  | straight cs hcs =>
    obtain ⟨-, rfl⟩ := hcs
    cases cs with
    | nil => simp [commandWords]
    | cons c cs =>
      have := c.words_pos
      simp
      omega
  | wrapped e cs ds hcs hnull hds hlt he =>
    simp
    omega

/-- The writer may fill `n` words from `w` on without reaching the reader. -/
def Room (r w n : Nat) : Prop := r ≤ w ∨ w + n < r

theorem Layout.straight_of_le {ps : List (Option Command)} (h : Layout buffer r w ps)
    (hrw : r ≤ w) : ∃ cs, ps = cs.map some ∧ Straight buffer r w cs := by
  cases h with
  | straight cs hcs => exact ⟨cs, rfl, hcs⟩
  | wrapped e cs ds hcs hnull hds hlt he => omega

theorem Layout.room_next {p : Option Command} {ps : List (Option Command)} {n : Nat}
    (h : Layout buffer r w (p :: ps)) (hr : Room r w n) : Room (next r p) w n := by
  cases p with
  | none => exact .inl (Nat.zero_le w)
  | some c =>
    simp only [next]
    rcases hr with hr | hr
    · obtain ⟨cs, hps, hcs⟩ := h.straight_of_le hr
      cases cs with
      | nil => simp at hps
      | cons d cs =>
        obtain ⟨rfl, -⟩ := by simpa using hps
        exact .inl (straight_cons.mp hcs).2.le
    · exact .inr (by omega)

theorem Layout.store {ps : List (Option Command)} {a n : Nat} {l : List UInt8}
    (h : Layout buffer r w ps) (hr : Room r w n) (ha : 4 * w ≤ a)
    (hl : a + l.length ≤ 4 * (w + n)) : Layout (store buffer a l) r w ps := by
  cases h with
  | straight cs hcs => exact .straight cs (hcs.store_disjoint (.inl ha))
  | wrapped e cs ds hcs hnull hds hlt he =>
    have hre := hcs.le
    have hend : a + l.length ≤ 4 * r := by
      rcases hr with hr | hr <;> omega
    exact .wrapped e cs ds (hcs.store_disjoint (.inr hend))
      (hnull.store_disjoint l (.inr (by omega))) (hds.store_disjoint (.inl ha)) hlt he

theorem Layout.snoc {ps : List (Option Command)} {c : Command} (h : Layout buffer r w ps)
    (hr : Room r w c.words) (hc : Laid buffer (4 * w) c.pattern) :
    Layout buffer r (w + c.words) (ps ++ [some c]) := by
  cases h with
  | straight cs hcs => simpa using Layout.straight (cs ++ [c]) (hcs.snoc hc)
  | wrapped e cs ds hcs hnull hds hlt he =>
    have hlt' : w + c.words < r := by
      rcases hr with hr | hr <;> omega
    simpa using Layout.wrapped e cs (ds ++ [c]) hcs hnull (hds.snoc hc) hlt' he

theorem Layout.wrap {ps : List (Option Command)} (h : Layout buffer r w ps) (hr : 0 < r)
    (hrw : r ≤ w) (hw : w < bufferSize) (hnull : Laid buffer (4 * w) nullPacket.pattern) :
    Layout buffer r 0 (ps ++ [none]) := by
  cases h with
  | straight cs hcs =>
    simpa using Layout.wrapped w cs [] hcs hnull (.nil buffer 0) hr hw
  | wrapped e cs ds hcs _ hds hlt he => omega

/-- The VU thread's side of the invariant: `ps` are the packets whose read position
is not committed, the first of them already decoded in the phase `commit`. -/
def Reader (phase : VUPhase) (atoReadPos readPos : Nat) (committed decoded : List Command)
    (ps : List (Option Command)) : Prop :=
  match phase with
  | .test => readPos = atoReadPos ∧ committed = decoded ++ ps.reduceOption
  | .decode => readPos = atoReadPos ∧ committed = decoded ++ ps.reduceOption ∧ ps ≠ []
  | .commit p => ∃ rest, ps = p :: rest ∧ readPos = next atoReadPos p ∧
      committed = decoded ++ rest.reduceOption

/-- The EE thread's side: how far the command in hand is written and the room it has. -/
def Writer (t : VUThread) : EEPhase → Prop
  | .idle => t.writePos = t.atoWritePos
  | .waitNull c => t.writePos = t.atoWritePos ∧ c.reserve < bufferSize
  | .writeNull c => t.writePos = t.atoWritePos ∧ c.reserve < bufferSize ∧
      Room t.atoReadPos t.atoWritePos 1
  | .wrap c => Laid t.buffer (4 * t.atoWritePos) nullPacket.pattern ∧ c.reserve < bufferSize
  | .wait c => t.writePos = t.atoWritePos ∧ t.atoWritePos + c.reserve < bufferSize
  | .write c todo => ∃ ws, c.writes = ws ++ todo ∧
      Laid t.buffer (4 * t.atoWritePos) (writePattern ws) ∧
      t.writePos = t.atoWritePos + writeWords ws ∧ t.atoWritePos + c.words < bufferSize ∧
      Room t.atoReadPos t.atoWritePos c.words

structure Inv (s : State) : Prop where
  writePos_lt : s.vu.atoWritePos < bufferSize
  reader : ∃ ps, Layout s.vu.buffer s.vu.atoReadPos s.vu.atoWritePos ps ∧
    Reader s.vuPhase s.vu.atoReadPos s.vu.readPos s.committed s.decoded ps
  writer : Writer s.vu s.ee

theorem reduceOption_cons (p : Option Command) (ps : List (Option Command)) :
    (p :: ps).reduceOption = p.toList ++ ps.reduceOption := by
  cases p <;> simp [List.reduceOption]

theorem Reader.snoc {phase : VUPhase} {a pos : Nat} {committed decoded : List Command}
    {ps : List (Option Command)} (h : Reader phase a pos committed decoded ps)
    (p : Option Command) :
    Reader phase a pos (committed ++ p.toList) decoded (ps ++ [p]) := by
  have hp : [p].reduceOption = p.toList := by cases p <;> rfl
  cases phase with
  | test =>
    obtain ⟨hpos, hc⟩ := h
    exact ⟨hpos, by rw [hc, List.reduceOption_append, hp, List.append_assoc]⟩
  | decode =>
    obtain ⟨hpos, hc, -⟩ := h
    exact ⟨hpos, by rw [hc, List.reduceOption_append, hp, List.append_assoc], by simp⟩
  | commit q =>
    obtain ⟨rest, rfl, hpos, hc⟩ := h
    exact ⟨rest ++ [p], rfl, hpos, by rw [hc, List.reduceOption_append, hp, List.append_assoc]⟩

theorem Write.laid_store (w : Write) (buffer : Nat → UInt8) (pos : Nat) :
    Laid (store buffer (4 * pos) w.bytes) (4 * pos) w.pattern := by
  rw [Write.pattern, laid_append]
  exact ⟨laid_store_self _ _ _, laid_replicate_none _ _ _⟩

theorem VUThread.room_of_waitOnSize {t : VUThread} {n : Nat} (h : t.waitOnSize n)
    (hw : t.writePos = t.atoWritePos) : Room t.atoReadPos t.atoWritePos n := by
  simp only [VUThread.waitOnSize, Bool.or_eq_true, decide_eq_true_eq, hw] at h
  unfold Room
  omega

theorem Writer.commitReadPos {t : VUThread} {ee : EEPhase} {p : Option Command}
    {ps : List (Option Command)} (h : Writer t ee)
    (hl : Layout t.buffer t.atoReadPos t.atoWritePos (p :: ps))
    (hpos : t.readPos = next t.atoReadPos p) : Writer t.commitReadPos ee := by
  cases ee with
  | writeNull c =>
    obtain ⟨hw, hc, hr⟩ := h
    exact ⟨hw, hc, by simpa [VUThread.commitReadPos, hpos] using hl.room_next hr⟩
  | write c todo =>
    obtain ⟨ws, hws, hlaid, hw, hc, hr⟩ := h
    exact ⟨ws, hws, hlaid, hw, hc, by simpa [VUThread.commitReadPos, hpos] using hl.room_next hr⟩
  | idle => exact h
  | waitNull c => exact h
  | wrap c => exact h
  | wait c => exact h

theorem Inv.init (buffer : Nat → UInt8) : Inv (.init buffer) where
  writePos_lt := by simp [State.init, VUThread.reset, bufferSize]
  reader := ⟨[], .straight [] (.nil buffer 0), rfl, rfl⟩
  writer := rfl

theorem Inv.step {s t : State} (h : Inv s) (hst : SafeStep s t) : Inv t := by
  obtain ⟨hstep, hwrap⟩ := hst
  obtain ⟨hlt, ⟨ps, hl, hr⟩, hw⟩ := h
  cases hstep with
  | reserveSpace c hee hpos hsize =>
    rw [hee] at hw
    have hw : s.vu.writePos = s.vu.atoWritePos := hw
    refine ⟨hlt, ⟨ps, hl, hr⟩, ?_⟩
    by_cases hend : s.vu.writePos + c.reserve > bufferSize - 1
    · rw [if_pos hend]
      exact ⟨hw, hsize⟩
    · rw [if_neg hend]
      refine ⟨hw, ?_⟩
      change s.vu.atoWritePos + c.reserve < bufferSize
      omega
  | waitNull c hee hwait =>
    rw [hee] at hw
    obtain ⟨hw, hc⟩ := hw
    exact ⟨hlt, ⟨ps, hl, hr⟩, hw, hc, VUThread.room_of_waitOnSize hwait hw⟩
  | writeNull c hee =>
    rw [hee] at hw
    obtain ⟨hw, hc, hroom⟩ := hw
    have hlen : 4 * s.vu.writePos + nullPacket.bytes.length ≤ 4 * (s.vu.atoWritePos + 1) := by
      rw [hw]
      exact Nat.le_refl _
    refine ⟨hlt, ⟨ps, hl.store hroom (by omega) hlen, hr⟩, ?_, hc⟩
    change Laid (store s.vu.buffer (4 * s.vu.writePos) _) (4 * s.vu.atoWritePos) _
    rw [← hw]
    exact nullPacket.laid_store s.vu.buffer s.vu.writePos
  | wrap c hee =>
    rw [hee] at hw
    obtain ⟨hnull, hc⟩ := hw
    obtain ⟨hread, hle⟩ := hwrap c hee rfl
    refine ⟨by simp [VUThread.commitWritePos, bufferSize], ⟨ps ++ [none], ?_, ?_⟩, rfl, ?_⟩
    · exact hl.wrap hread hle hlt hnull
    · simpa [VUThread.commitWritePos] using hr.snoc none
    · simpa [VUThread.commitWritePos] using hc
  | wait c hee hwait =>
    rw [hee] at hw
    obtain ⟨hw, hc⟩ := hw
    rw [c.reserve_eq_words] at hc hwait
    refine ⟨hlt, ⟨ps, hl, hr⟩, [], rfl, laid_nil _ _, ?_, hc, ?_⟩
    · simpa using hw
    · exact VUThread.room_of_waitOnSize hwait hw
  | write c w ws hee =>
    rw [hee] at hw
    obtain ⟨done, hdone, hlaid, hw, hc, hroom⟩ := hw
    have hwords : c.words = writeWords done + (w.words + writeWords ws) := by
      rw [Command.words, hdone]
      simp
    have hbytes := w.length_bytes_le
    refine ⟨hlt, ⟨ps, hl.store hroom (by omega) (by omega), hr⟩, done ++ [w], ?_, ?_, ?_, hc, hroom⟩
    · simp [hdone]
    · change Laid (store s.vu.buffer (4 * s.vu.writePos) w.bytes) (4 * s.vu.atoWritePos) _
      rw [writePattern_append, laid_append, length_writePattern, ← Nat.mul_add, ← hw]
      constructor
      · refine hlaid.store_disjoint _ (.inl ?_)
        rw [length_writePattern]
        omega
      · simpa [writePattern] using w.laid_store s.vu.buffer s.vu.writePos
    · simp [VUThread.write, hw, Nat.add_assoc]
  | commitWritePos c hee =>
    rw [hee] at hw
    obtain ⟨done, hdone, hlaid, hw, hc, hroom⟩ := hw
    have hdone : c.writes = done := by simpa using hdone
    have hw : s.vu.writePos = s.vu.atoWritePos + c.words := by rw [hw, Command.words, hdone]
    refine ⟨?_, ⟨ps ++ [some c], ?_, ?_⟩, rfl⟩
    · change s.vu.writePos < bufferSize
      omega
    · change Layout s.vu.buffer s.vu.atoReadPos s.vu.writePos (ps ++ [some c])
      rw [hw]
      refine hl.snoc hroom ?_
      rw [Command.pattern, hdone]
      exact hlaid
    · exact hr.snoc (some c)
  | test hph hne =>
    rw [hph] at hr
    obtain ⟨hpos, hc⟩ := hr
    refine ⟨hlt, ⟨ps, hl, hpos, hc, ?_⟩, hw⟩
    intro hnil
    exact hne (hl.eq_iff.mpr hnil)
  | decode p pos hph hex =>
    rw [hph] at hr
    obtain ⟨hpos, hc, hne⟩ := hr
    cases ps with
    | nil => exact absurd rfl hne
    | cons q ps =>
      rw [hpos, hl.execute] at hex
      obtain ⟨rfl, rfl⟩ := by simpa using hex
      refine ⟨hlt, ⟨q :: ps, hl, ps, rfl, rfl, ?_⟩, ?_⟩
      · change s.committed = s.decoded ++ q.toList ++ ps.reduceOption
        rw [hc, reduceOption_cons, List.append_assoc]
      · exact hw
  | commitReadPos p hph =>
    rw [hph] at hr
    obtain ⟨rest, rfl, hpos, hc⟩ := hr
    have hl' : Layout s.vu.buffer s.vu.readPos s.vu.atoWritePos rest := by
      rw [hpos]
      exact hl.tail
    exact ⟨hlt, ⟨rest, hl', rfl, hc⟩, Writer.commitReadPos hw hl hpos⟩

theorem Inv.inOrder {s : State} (h : Inv s) : InOrder s := by
  obtain ⟨-, ⟨ps, hl, hr⟩, -⟩ := h
  cases hph : s.vuPhase with
  | test =>
    rw [hph] at hr
    obtain ⟨-, hc⟩ := hr
    refine ⟨⟨_, hc.symm⟩, fun heq => ?_⟩
    rw [hc, hl.eq_iff.mp heq]
    simp
  | decode =>
    rw [hph] at hr
    obtain ⟨-, hc, hne⟩ := hr
    exact ⟨⟨_, hc.symm⟩, fun heq => absurd (hl.eq_iff.mp heq) hne⟩
  | commit p =>
    rw [hph] at hr
    obtain ⟨rest, rfl, -, hc⟩ := hr
    exact ⟨⟨_, hc.symm⟩, fun heq => absurd (hl.eq_iff.mp heq) (by simp)⟩

/-- In every run that never wraps onto the reader, commands are decoded in commit order. -/
theorem inOrder_of_safe {s : State} (h : ReflTransGen SafeStep (.init buffer) s) : InOrder s :=
  (Lib.Run.invariant (fun _ _ hs hst => hs.step hst) h (Inv.init buffer)).inOrder

/-- The EE thread alone has committed `n` calls of `ExecuteVU`. -/
structure Filled (n : Nat) (s : State) : Prop where
  idle : s.ee = .idle
  writePos : s.vu.writePos = 4 * n
  atoWritePos : s.vu.atoWritePos = 4 * n
  atoReadPos : s.vu.atoReadPos = 0
  committed : s.committed = List.replicate n (.executeVU 0 0 0)
  decoded : s.decoded = []

theorem SafeStep.of_step {s t : State} (h : Step s t) (hs : ∀ c, s.ee ≠ .wrap c) : SafeStep s t :=
  ⟨h, fun c hc _ => absurd hc (hs c)⟩

theorem Filled.executeVU {n : Nat} {s : State} (h : Filled n s) (hn : 4 * n + 4 < bufferSize) :
    ∃ t, ReflTransGen SafeStep s t ∧ Filled (n + 1) t := by
  obtain ⟨hidle, hwp, hawp, harp, hc, hd⟩ := h
  let c : Command := .executeVU 0 0 0
  let s₁ : State := { s with ee := .wait c }
  have h₁ : SafeStep s s₁ := by
    have := Step.reserveSpace s c hidle (by decide) (by simp [c, Command.reserve, bufferSize])
    rw [if_neg (by simp [c, Command.reserve]; omega)] at this
    exact .of_step this (by simp [hidle])
  let s₂ : State := { s₁ with ee := .write c c.writes }
  have h₂ : SafeStep s₁ s₂ :=
    .of_step (.wait s₁ c rfl (by simp [VUThread.waitOnSize, s₁, harp])) (by simp [s₁])
  have h₃ : ∀ (u : State) (ws : List Write), u.ee = .write c ws →
      ReflTransGen SafeStep u
        { u with vu := ws.foldl VUThread.write u.vu, ee := .write c [] } := by
    intro u ws
    induction ws generalizing u with
    | nil =>
      intro hu
      rw [List.foldl_nil, ← hu]
    | cons w ws ih =>
      intro hu
      refine .head (.of_step (.write u c w ws hu) (by simp [hu])) ?_
      exact ih { u with vu := u.vu.write w, ee := .write c ws } rfl
  have h₄ := SafeStep.of_step (.commitWritePos
    { s₂ with vu := c.writes.foldl VUThread.write s₂.vu, ee := .write c [] } c rfl) (by simp)
  refine ⟨_, (ReflTransGen.single h₁).trans (.trans (.single h₂) (.tail (h₃ s₂ _ rfl) h₄)),
    rfl, ?_, ?_, ?_, ?_, hd⟩
  · simp [c, Command.writes, VUThread.write, Write.words, VUThread.commitWritePos, s₂, s₁, hwp]
    omega
  · simp [c, Command.writes, VUThread.write, Write.words, VUThread.commitWritePos, s₂, s₁, hwp]
    omega
  · simp [c, Command.writes, VUThread.write, VUThread.commitWritePos, s₂, s₁, harp]
  · simp [s₂, s₁, hc, c, List.replicate_succ']

theorem exists_filled (buffer : Nat → UInt8) (n : Nat) (hn : 4 * n < bufferSize) :
    ∃ s, ReflTransGen SafeStep (.init buffer) s ∧ Filled n s := by
  induction n with
  | zero => exact ⟨_, .refl, rfl, rfl, rfl, rfl, rfl, rfl⟩
  | succ n ih =>
    obtain ⟨s, hs, hf⟩ := ih (by omega)
    obtain ⟨t, ht, hf⟩ := hf.executeVU (by omega)
    exact ⟨t, hs.trans ht, hf⟩

theorem inOrder_of_safe_one :
    ∃ s, s.committed = [.executeVU 0 0 0] ∧ InOrder s := by
  obtain ⟨s, hs, hf⟩ := exists_filled (fun _ => 0) 1 (by simp [bufferSize])
  exact ⟨s, hf.committed, inOrder_of_safe hs⟩

/-- 1048575 calls of `ExecuteVU` fill the ring before the VU thread starts; the next
one wraps, and the positions are equal with every command unread. -/
theorem not_inOrder_of_full :
    ∃ s, ReflTransGen Step (.init fun _ => 0) s ∧ s.vu.atoReadPos = s.vu.atoWritePos ∧
      s.committed.length = 1048575 ∧ s.decoded = [] ∧ ¬ InOrder s := by
  obtain ⟨s, hs, hidle, hwp, hawp, harp, hc, hd⟩ :=
    exists_filled (fun _ => 0) 1048575 (by simp [bufferSize])
  have hlen : s.committed.length = 1048575 := by rw [hc, List.length_replicate]
  clear hc
  let c : Command := .executeVU 0 0 0
  let s₁ : State := { s with ee := .waitNull c }
  have h₁ : Step s s₁ := by
    have := Step.reserveSpace s c hidle (by decide) (by simp [c, Command.reserve, bufferSize])
    rwa [if_pos (by simp [hwp, bufferSize, c, Command.reserve])] at this
  let s₂ : State := { s₁ with ee := .writeNull c }
  have h₂ : Step s₁ s₂ := .waitNull s₁ c rfl (by simp [VUThread.waitOnSize, s₁, harp])
  let s₃ : State := { s₂ with vu := s₂.vu.write nullPacket, ee := .wrap c }
  have h₃ : Step s₂ s₃ := .writeNull s₂ c rfl
  have h₄ := Step.wrap s₃ c rfl
  have hrun : ReflTransGen Step (.init fun _ => 0) s := hs.lift id fun _ _ h => h.1
  refine ⟨_, hrun.trans (.tail (.tail (.tail (.single h₁) h₂) h₃) h₄), ?_, ?_, hd, ?_⟩
  · simp [VUThread.commitWritePos, VUThread.write, s₃, s₂, s₁, harp]
  · exact hlen
  · intro hin
    have hall := hin.2 (by simp [VUThread.commitWritePos, VUThread.write, s₃, s₂, s₁, harp])
    have hcs : s.decoded = s.committed := hall
    rw [hd] at hcs
    rw [← hcs] at hlen
    cases hlen

end OmegaRed.MTVU
