import OmegaRed.MTGS.Ring
import OmegaRed.Lib.RingFifo

/-! The MTGS ring delivers every packet once and in order. -/

namespace OmegaRed.MTGS

open Function Relation Lib.Cyclic

variable {ring ring' : Nat → U128} {r w : Nat}

/-- The packet stands in the ring from position `v` on. -/
def Packet.At (ring : Nat → U128) (v : Nat) : Packet → Prop
  | .simple type data0 data1 data2 =>
    ring (v % ringBufferSize) = ⟨type.toWord, data0, data1, data2⟩
  | .pointer type data0 data1 =>
    let tag := ring (v % ringBufferSize)
    tag.w0 = type.toWord ∧ tag.w1 = data0 ∧ tag.w2 = data1
  | .data cmd qwords =>
    let tag := ring (v % ringBufferSize)
    tag.w0 = cmd.toWord ∧ tag.w1 = .ofNat qwords.length ∧
      ∀ i q, qwords[i]? = some q → ring ((v + 1 + i) % ringBufferSize) = q

theorem Packet.qwc_pos (p : Packet) : 0 < p.qwc := by
  cases p with
  | simple type data0 data1 data2 => exact Nat.one_pos
  | pointer type data0 data1 => exact Nat.one_pos
  | data cmd qwords => exact Nat.lt_add_right _ Nat.one_pos

theorem Packet.At.agree {p : Packet} {v : Nat} (h : p.At ring v)
    (ha : Agree ringBufferSize ring ring' v (v + p.qwc)) : p.At ring' v := by
  have htag : ring' (v % ringBufferSize) = ring (v % ringBufferSize) :=
    ha v (Nat.le_refl v) (by have := p.qwc_pos; omega)
  cases p with
  | simple type data0 data1 data2 =>
    simp only [Packet.At] at h ⊢
    rw [htag, h]
  | pointer type data0 data1 =>
    simp only [Packet.At] at h ⊢
    rwa [htag]
  | data cmd qwords =>
    simp only [Packet.At] at h ⊢
    obtain ⟨hcmd, hsize, hdata⟩ := h
    rw [htag]
    refine ⟨hcmd, hsize, fun i q hq => ?_⟩
    have hi : i < qwords.length := (List.getElem?_eq_some_iff.mp hq).1
    rw [ha (v + 1 + i) (by omega) (by simp only [Packet.qwc]; omega)]
    exact hdata i q hq

/-- The packets `ps` fill the ring from position `r` to position `w`. -/
def Queue (ring : Nat → U128) (r w : Nat) : List Packet → Prop
  | [] => r = w
  | p :: ps => p.At ring r ∧ Queue ring (r + p.qwc) w ps

@[simp] theorem qwc_cons (p : Packet) (ps : List Packet) : qwc (p :: ps) = p.qwc + qwc ps := rfl

theorem Queue.eq_add {ps : List Packet} (h : Queue ring r w ps) : w = r + qwc ps := by
  induction ps generalizing r with
  | nil => exact h.symm
  | cons p ps ih =>
    rw [ih h.2, qwc_cons]
    omega

theorem Queue.agree {ps : List Packet} (h : Queue ring r w ps)
    (ha : Agree ringBufferSize ring ring' r w) : Queue ring' r w ps := by
  induction ps generalizing r with
  | nil => exact h
  | cons p ps ih =>
    have hw := h.2.eq_add
    exact ⟨h.1.agree (ha.mono (Nat.le_refl r) (by omega)),
      ih h.2 (ha.mono (by omega) (Nat.le_refl w))⟩

theorem Queue.snoc {ps : List Packet} {p : Packet} (h : Queue ring r w ps) (hp : p.At ring w) :
    Queue ring r (w + p.qwc) (ps ++ [p]) := by
  induction ps generalizing r with
  | nil =>
    obtain rfl : r = w := h
    exact ⟨hp, rfl⟩
  | cons q ps ih => exact ⟨h.1, ih h.2⟩

/-- The EE thread's side of the invariant: what the call at hand has written from the
write position on, and the room it has before the reader. -/
def Producer (t : SysMtgsThread) (r w : Nat) : EEPhase → Prop
  | .idle => True
  | .stall s => s.stallSize < ringBufferSize
  | .tag s => s.stallSize < ringBufferSize ∧ w + s.stallSize < r + ringBufferSize
  | .put cmd sent todo =>
    let tag := t.ringBuffer (w % ringBufferSize)
    t.packetStartpos = w % ringBufferSize ∧
      t.packetWritepos = (w + 1 + sent.length) % ringBufferSize ∧
      tag.w0 = cmd.toWord ∧
      (∀ i q, sent[i]? = some q → t.ringBuffer ((w + 1 + i) % ringBufferSize) = q) ∧
      sent.length + todo.length + 1 < ringBufferSize ∧
      w + 1 + sent.length + todo.length < r + ringBufferSize
  | .finish p => p.At t.ringBuffer w ∧
      (t.finish p).writePos = (w + p.qwc) % ringBufferSize ∧ w + p.qwc < r + ringBufferSize

/-- The MTGS thread's side: what it has read of the first unread packet. -/
def Consumer (ps : List Packet) : GSPhase → Prop
  | .test => True
  | .readTag => ps ≠ []
  | .readData cmd qsize data => ∃ qwords rest, ps = .data cmd qwords :: rest ∧
      qsize = qwords.length ∧ data <+: qwords
  | .advance p ringposinc => ∃ rest, ps = p :: rest ∧ ringposinc = p.qwc

/-- Read and write position as positions that never wrap, with the packets between. -/
structure Inv (s : State) (r w : Nat) (ps : List Packet) : Prop where
  readPos : s.mtgs.readPos = r % ringBufferSize
  writePos : s.mtgs.writePos = w % ringBufferSize
  lt : w < r + ringBufferSize
  queue : Queue s.mtgs.ringBuffer r w ps
  committed : s.committed = s.consumed ++ ps
  producer : Producer s.mtgs r w s.ee
  consumer : Consumer ps s.gs

theorem freeroom_eq {t : SysMtgsThread} (hr : t.readPos = r % ringBufferSize)
    (hw : t.writePos = w % ringBufferSize) (hle : r ≤ w) (hlt : w < r + ringBufferSize) :
    t.freeroom = r + ringBufferSize - w := by
  have hN := ringBufferSize_eq
  rw [hN] at hr hw hlt
  rw [SysMtgsThread.freeroom]
  by_cases h : t.writePos < t.readPos
  · rw [if_pos h]
    omega
  · rw [if_neg h]
    omega

theorem actualSize_eq {t : SysMtgsThread} {n : Nat} (hs : t.packetStartpos = w % ringBufferSize)
    (hw : t.packetWritepos = (w + 1 + n) % ringBufferSize) (hn : n + 1 < ringBufferSize) :
    t.actualSize = .ofNat n := by
  simp only [SysMtgsThread.actualSize, hs, hw, and_ringBufferMask]
  apply UInt32.toNat.inj
  simp only [UInt32.toNat_ofNat']
  simp only [ringBufferSize_eq] at hn ⊢
  omega

theorem Inv.init (ring : Nat → U128) : Inv (.init ring) 0 0 [] where
  readPos := rfl
  writePos := rfl
  lt := by simp [ringBufferSize_eq]
  queue := rfl
  committed := rfl
  producer := trivial
  consumer := trivial

theorem Inv.agree {s t : State} {ps : List Packet} (h : Inv s r w ps) (hst : Step s t) :
    Agree ringBufferSize s.mtgs.ringBuffer t.mtgs.ringBuffer r w := by
  have hlt := h.lt
  have hp := h.producer
  have hwrite (x : U128) : Agree ringBufferSize s.mtgs.ringBuffer
      (update s.mtgs.ringBuffer s.mtgs.writePos x) r w := by
    rw [h.writePos]
    exact agree_update _ _ (Nat.le_refl w) hlt
  cases hst with
  | sendSimple type data0 data1 data2 hee => exact hwrite _
  | sendPointer type data0 data1 hee => exact hwrite _
  | prepData cmd size qwords le hee => exact hwrite _
  | putData cmd sent q todo hee =>
    rw [hee] at hp
    obtain ⟨-, hpos, -, -, -, hroom⟩ := hp
    simp only [List.length_cons] at hroom
    change Agree _ _ (s.mtgs.putData q).ringBuffer _ _
    rw [SysMtgsThread.ringBuffer_putData, hpos, Nat.mod_mod]
    exact agree_update _ _ (by omega) (by omega)
  | sendData cmd sent hee =>
    rw [hee] at hp
    obtain ⟨hstart, -⟩ := hp
    change Agree _ _ (s.mtgs.sendDataTag).ringBuffer _ _
    simp only [SysMtgsThread.sendDataTag, hstart]
    exact agree_update _ _ (Nat.le_refl w) hlt
  | finish p hee => cases p <;> exact .refl _
  | call p hee hsize => exact .refl _
  | stall p hee hstall => exact .refl _
  | test hgs hne => exact .refl _
  | readTag gs hgs htag => exact .refl _
  | readData cmd qsize data hgs hlen => exact .refl _
  | readDone cmd data hgs => exact .refl _
  | advance p ringposinc hgs => exact .refl _

theorem switch_simple {tag : U128} {type : Command .simple} (h : tag.w0 = type.toWord) :
    tag.switch = some (.advance (.simple type tag.w1 tag.w2 tag.w3) 1) := by
  obtain ⟨c, hc⟩ := type
  change tag.w0 = c.toWord at h
  rw [U128.switch, h, RingCommand.ofWord?_toWord]
  dsimp only
  split <;> rename_i hkind
  all_goals first
    | rfl
    | cases hc.symm.trans hkind

theorem switch_pointer {tag : U128} {type : Command .pointer} (h : tag.w0 = type.toWord) :
    tag.switch = some (.advance (.pointer type tag.w1 tag.w2) 1) := by
  obtain ⟨c, hc⟩ := type
  change tag.w0 = c.toWord at h
  rw [U128.switch, h, RingCommand.ofWord?_toWord]
  dsimp only
  split <;> rename_i hkind
  all_goals first
    | rfl
    | cases hc.symm.trans hkind

theorem switch_data {tag : U128} {cmd : Command .data} (h : tag.w0 = cmd.toWord) :
    tag.switch = some (.readData cmd tag.w1.toNat []) := by
  obtain ⟨c, hc⟩ := cmd
  change tag.w0 = c.toWord at h
  rw [U128.switch, h, RingCommand.ofWord?_toWord]
  dsimp only
  split <;> rename_i hkind
  all_goals first
    | rfl
    | cases hc.symm.trans hkind

theorem consumer_of_switch {p : Packet} {ps : List Packet} {gs : GSPhase} (h : p.At ring r)
    (hsize : p.qwc < ringBufferSize) (hgs : (ring (r % ringBufferSize)).switch = some gs) :
    Consumer (p :: ps) gs := by
  cases p with
  | simple type data0 data1 data2 =>
    simp only [Packet.At] at h
    rw [h, switch_simple rfl] at hgs
    cases hgs
    exact ⟨ps, rfl, rfl⟩
  | pointer type data0 data1 =>
    obtain ⟨htype, rfl, rfl⟩ := h
    rw [switch_pointer htype] at hgs
    cases hgs
    exact ⟨ps, rfl, rfl⟩
  | data cmd qwords =>
    obtain ⟨hcmd, hlen, -⟩ := h
    rw [switch_data hcmd] at hgs
    cases hgs
    refine ⟨qwords, ps, rfl, ?_, List.nil_prefix⟩
    simp only [Packet.qwc, ringBufferSize_eq] at hsize
    rw [hlen, UInt32.toNat_ofNat']
    omega

theorem Consumer.snoc {ps : List Packet} {gs : GSPhase} (h : Consumer ps gs) (p : Packet) :
    Consumer (ps ++ [p]) gs := by
  cases gs with
  | test => trivial
  | readTag => exact fun hnil => by simp at hnil
  | readData cmd qsize data =>
    obtain ⟨qwords, rest, rfl, hsize, hdata⟩ := h
    exact ⟨qwords, rest ++ [p], rfl, hsize, hdata⟩
  | advance q ringposinc =>
    obtain ⟨rest, rfl, hinc⟩ := h
    exact ⟨rest ++ [p], rfl, hinc⟩

theorem Producer.advance {t : SysMtgsThread} {ee : EEPhase} {inc n : Nat} (h : Producer t r w ee) :
    Producer (t.advance inc) (r + n) w ee := by
  cases ee with
  | idle => trivial
  | stall s => exact h
  | tag s =>
    obtain ⟨hsize, hroom⟩ := h
    exact ⟨hsize, by omega⟩
  | put cmd sent todo =>
    obtain ⟨hstart, hpos, hcmd, hsent, hsize, hroom⟩ := h
    exact ⟨hstart, hpos, hcmd, hsent, hsize, by omega⟩
  | finish p =>
    obtain ⟨hp, hpos, hroom⟩ := h
    refine ⟨hp, ?_, by omega⟩
    cases p <;> exact hpos

theorem nextWritePos_eq {t : SysMtgsThread} (h : t.writePos = w % ringBufferSize) :
    (t.writePos + 1) &&& ringBufferMask = (w + 1) % ringBufferSize := by
  rw [and_ringBufferMask, h, Nat.mod_add_mod]

theorem Inv.le {s : State} {ps : List Packet} (h : Inv s r w ps) : r ≤ w := by
  have := h.queue.eq_add
  omega

theorem Inv.step {s t : State} {ps : List Packet} (h : Inv s r w ps) (hst : Step s t) :
    ∃ r' w' ps', Inv t r' w' ps' := by
  have hle := h.le
  have hqueue := h.queue.agree (h.agree hst)
  obtain ⟨hr, hw, hlt, hq, hc, hp, hcon⟩ := h
  cases hst with
  | call p hee hsize => exact ⟨r, w, ps, hr, hw, hlt, hqueue, hc, hsize, hcon⟩
  | stall p hee hstall =>
    rw [hee] at hp
    simp only [SysMtgsThread.genericStall, freeroom_eq hr hw hle hlt, decide_eq_true_eq] at hstall
    exact ⟨r, w, ps, hr, hw, hlt, hqueue, hc, ⟨hp, by omega⟩, hcon⟩
  | sendSimple type data0 data1 data2 hee =>
    rw [hee] at hp
    obtain ⟨-, hroom⟩ := hp
    refine ⟨r, w, ps, hr, hw, hlt, hqueue, hc, ⟨?_, ?_, hroom⟩, hcon⟩
    · simp only [Packet.At, SysMtgsThread.sendSimpleTag, hw, update_self]
    · exact nextWritePos_eq hw
  | sendPointer type data0 data1 hee =>
    rw [hee] at hp
    obtain ⟨-, hroom⟩ := hp
    refine ⟨r, w, ps, hr, hw, hlt, hqueue, hc, ⟨?_, ?_, hroom⟩, hcon⟩
    · simp only [Packet.At, SysMtgsThread.sendPointerTag, hw, update_self, and_self]
    · exact nextWritePos_eq hw
  | prepData cmd size qwords le hee =>
    rw [hee] at hp
    obtain ⟨hsize, hroom⟩ := hp
    simp only [Send.stallSize] at hsize hroom
    refine ⟨r, w, ps, hr, hw, hlt, hqueue, hc, ⟨hw, ?_, ?_, by simp, ?_, ?_⟩, hcon⟩
    · exact nextWritePos_eq hw
    · simp only [SysMtgsThread.prepDataPacket, hw, update_self]
    · simp only [List.length_nil]
      omega
    · simp only [List.length_nil]
      omega
  | putData cmd sent q todo hee =>
    rw [hee] at hp
    obtain ⟨hstart, hpos, hcmd, hsent, hsize, hroom⟩ := hp
    rw [List.length_cons] at hsize hroom
    have hring : (s.mtgs.putData q).ringBuffer =
        update s.mtgs.ringBuffer ((w + 1 + sent.length) % ringBufferSize) q := by
      rw [SysMtgsThread.ringBuffer_putData, hpos, Nat.mod_mod]
    have hkept : Agree ringBufferSize s.mtgs.ringBuffer (s.mtgs.putData q).ringBuffer w
        (w + 1 + sent.length) := by
      rw [hring]
      exact agree_update _ _ (Nat.le_refl _) (by omega)
    refine ⟨r, w, ps, hr, hw, hlt, hqueue, hc, ⟨hstart, ?_, ?_, ?_, ?_, ?_⟩, hcon⟩
    · change (s.mtgs.putData q).packetWritepos = _
      rw [SysMtgsThread.packetWritepos_putData, hpos, List.length_append, Nat.mod_add_mod,
        List.length_singleton, Nat.add_assoc _ sent.length]
    · change ((s.mtgs.putData q).ringBuffer (w % ringBufferSize)).w0 = cmd.toWord
      rw [hkept w (Nat.le_refl w) (by omega), hcmd]
    · intro i x hx
      change (s.mtgs.putData q).ringBuffer _ = x
      by_cases hi : i < sent.length
      · rw [List.getElem?_append_left hi] at hx
        rw [hkept _ (by omega) (by omega), hsent i x hx]
      · obtain rfl : i = sent.length := by
          have := (List.getElem?_eq_some_iff.mp hx).1
          rw [List.length_append, List.length_singleton] at this
          omega
        rw [List.getElem?_concat_length] at hx
        cases hx
        rw [hring, update_self]
    · rw [List.length_append, List.length_singleton]
      omega
    · rw [List.length_append, List.length_singleton]
      omega
  | sendData cmd sent hee =>
    rw [hee] at hp
    obtain ⟨hstart, hpos, hcmd, hsent, hsize, hroom⟩ := hp
    rw [List.length_nil] at hsize hroom
    refine ⟨r, w, ps, hr, hw, hlt, hqueue, hc, ⟨⟨?_, ?_, ?_⟩, ?_, ?_⟩, hcon⟩
    · simp only [SysMtgsThread.sendDataTag, hstart, update_self, hcmd]
    · simp only [SysMtgsThread.sendDataTag, hstart, update_self]
      exact actualSize_eq hstart hpos (by omega)
    · intro i x hx
      have hi := (List.getElem?_eq_some_iff.mp hx).1
      simp only [SysMtgsThread.sendDataTag, hstart]
      rw [update_of_ne (mod_ne_mod (by omega) (by omega)).symm]
      exact hsent i x hx
    · simp only [SysMtgsThread.finish, SysMtgsThread.sendDataPacket, SysMtgsThread.sendDataTag,
        Packet.qwc, hpos, Nat.add_assoc]
    · simp only [Packet.qwc]
      omega
  | finish p hee =>
    rw [hee] at hp
    obtain ⟨hat, hpos, hroom⟩ := hp
    have hread : (s.mtgs.finish p).readPos = s.mtgs.readPos := by cases p <;> rfl
    have hring : (s.mtgs.finish p).ringBuffer = s.mtgs.ringBuffer := by cases p <;> rfl
    refine ⟨r, w + p.qwc, ps ++ [p], hread.trans hr, hpos, hroom, ?_, ?_, trivial, hcon.snoc p⟩
    · change Queue (s.mtgs.finish p).ringBuffer _ _ _
      rw [hring]
      exact hq.snoc hat
    · change s.committed ++ [p] = _
      rw [hc, List.append_assoc]
  | test hgs hne =>
    refine ⟨r, w, ps, hr, hw, hlt, hqueue, hc, hp, ?_⟩
    rintro rfl
    obtain rfl : r = w := hq
    exact hne (hr.trans hw.symm)
  | readTag gs hgs htag =>
    rw [hgs] at hcon
    cases ps with
    | nil => exact absurd rfl hcon
    | cons p ps =>
      have hlen := hq.eq_add
      rw [qwc_cons] at hlen
      rw [hr] at htag
      exact ⟨r, w, p :: ps, hr, hw, hlt, hqueue, hc, hp,
        consumer_of_switch hq.1 (by omega) htag⟩
  | readData cmd qsize data hgs hlen =>
    rw [hgs] at hcon
    obtain ⟨qwords, rest, rfl, rfl, hdata⟩ := hcon
    obtain ⟨⟨-, -, hat⟩, -⟩ := hq
    refine ⟨r, w, _, hr, hw, hlt, hqueue, hc, hp, qwords, rest, rfl, rfl, ?_⟩
    have hq := hat data.length _ (List.getElem?_eq_getElem hlen)
    rw [and_ringBufferMask, hr, Nat.add_assoc, Nat.mod_add_mod, ← Nat.add_assoc, hq]
    obtain ⟨tail, rfl⟩ := hdata
    cases tail with
    | nil => simp at hlen
    | cons x tail =>
      refine ⟨tail, ?_⟩
      simp
  | readDone cmd data hgs =>
    rw [hgs] at hcon
    obtain ⟨qwords, rest, rfl, hsize, hdata⟩ := hcon
    obtain rfl := hdata.eq_of_length hsize
    exact ⟨r, w, _, hr, hw, hlt, hqueue, hc, hp, rest, rfl, rfl⟩
  | advance p ringposinc hgs =>
    rw [hgs] at hcon
    obtain ⟨rest, rfl, rfl⟩ := hcon
    refine ⟨r + p.qwc, w, rest, ?_, hw, by omega, hq.2, ?_, hp.advance, trivial⟩
    · change (s.mtgs.readPos + p.qwc) &&& ringBufferMask = _
      rw [and_ringBufferMask, hr, Nat.mod_add_mod]
    · rw [hc, List.append_assoc]
      rfl

theorem Inv.delivers {s : State} {ps : List Packet} (h : Inv s r w ps) : Delivers s where
  inOrder := ⟨ps, h.committed.symm⟩
  empty heq := by
    have hpos : r % ringBufferSize = w % ringBufferSize := by
      rw [← h.readPos, ← h.writePos, heq]
    have hw := h.queue.eq_add
    obtain rfl := (mod_eq_mod_iff h.le h.lt).mp hpos
    cases ps with
    | nil => simp [h.committed]
    | cons p ps =>
      have := p.qwc_pos
      rw [qwc_cons] at hw
      omega
  kept t hst i hi := by
    have hw := h.queue.eq_add
    rw [State.unread, h.committed, List.drop_left] at hi
    rw [h.readPos, Nat.mod_add_mod]
    exact h.agree hst (r + i) (by omega) (by omega)

def Consistent (s : State) : Prop := ∃ r w ps, Inv s r w ps

theorem Consistent.step (s t : State) (h : Consistent s) (hst : Step s t) : Consistent t := by
  obtain ⟨r, w, ps, hs⟩ := h
  exact hs.step hst

/-- In every run the MTGS thread gets every packet once and in order. -/
theorem delivers_of_reachable {s : State} (h : ReflTransGen Step (.init ring) s) : Delivers s := by
  have hinit : Consistent (.init ring) := ⟨0, 0, [], Inv.init ring⟩
  obtain ⟨r, w, ps, hinv⟩ := Lib.Run.invariant Consistent.step h hinit
  exact hinv.delivers

def gameCRC (crc : UInt32) : Packet := .simple ⟨.crc, rfl⟩ crc 0 0

theorem exists_delivered (ring : Nat → U128) (crc : UInt32) :
    ∃ s, ReflTransGen Step (.init ring) s ∧ s.consumed = [gameCRC crc] := by
  let send : Send := .simple ⟨.crc, rfl⟩ crc 0 0
  let s₁ : State := { State.init ring with ee := .stall send }
  have h₁ : Step (.init ring) s₁ := .call _ send rfl
    (by simp [send, Send.stallSize, ringBufferSize_eq])
  let s₂ : State := { s₁ with ee := .tag send }
  have h₂ : Step s₁ s₂ := .stall s₁ send rfl rfl
  let s₃ : State := { s₂ with
    mtgs := s₂.mtgs.sendSimpleTag ⟨.crc, rfl⟩ crc 0 0, ee := .finish (gameCRC crc) }
  have h₃ : Step s₂ s₃ := .sendSimple s₂ _ _ _ _ rfl
  let s₄ : State := { s₃ with
    mtgs := s₃.mtgs.finish (gameCRC crc), ee := .idle, committed := [gameCRC crc] }
  have h₄ : Step s₃ s₄ := .finish s₃ _ rfl
  let s₅ : State := { s₄ with gs := .readTag }
  have hne : s₄.mtgs.readPos ≠ s₄.mtgs.writePos := by
    change 0 ≠ (0 + 1) &&& ringBufferMask
    rw [and_ringBufferMask, ringBufferSize_eq]
    decide
  have h₅ : Step s₄ s₅ := .test s₄ rfl hne
  let s₆ : State := { s₅ with gs := .advance (gameCRC crc) 1 }
  have h₆ : Step s₅ s₆ := .readTag s₅ _ rfl rfl
  have h₇ := Step.advance s₆ _ _ rfl
  exact ⟨_, .tail (.tail (.tail (.tail (.tail (.tail (.single h₁) h₂) h₃) h₄) h₅) h₆) h₇, rfl⟩

theorem delivers_gameCRC : ∃ s, s.consumed = [gameCRC 7] ∧ Delivers s := by
  obtain ⟨s, hs, hc⟩ := exists_delivered (fun _ => ⟨0, 0, 0, 0⟩) 7
  exact ⟨s, hc, delivers_of_reachable hs⟩

end OmegaRed.MTGS
