import OmegaRed.Sio.Write
import OmegaRed.Memcard.FileCard

/-! Transfers to and from a memory card, a byte at a time. -/

namespace OmegaRed.Sio

open State Lib.Memory Memcard

/-- What `memcardWrite` hands to `mcd->Write`. -/
def cardWrite (data : UInt8) (s : State) : Option (UInt32 × List UInt8) :=
  if s.siomode = .memcardWrite ∧ 3 ≤ s.bufCount.toNat ∧
      s.bufCount.toNat = s.checksumPos.toNat ∧ (memcardData data s).hung = false then
    some (s.card.transferAddr, load (memcardData data s).buf 4 s.writeSize.toNat)
  else none

/-- A byte is written, and the answer to it is read. -/
def exchange8 (e : Env) (data : UInt8) (s : State) : State × UInt8 := sioRead8 (sioWrite8 e data s)

/-- A byte that is sent to the card, with what is around the port and in the card's buffer. -/
structure Sent where
  data : UInt8
  env : Env
  currentdata : Nat → UInt8

/-- The port with a card that is kept in a file, in the modes `memcardWrite` and `memcardRead`. -/
structure Port where
  sio : State
  mc : FileMemoryCard

namespace Port

/-- The bytes that `mcd->Read` leaves at `&sio.buf[4]`. -/
def cardData (p : Port) (n : Nat) : Nat → UInt8 :=
  (p.mc.read (fun i => p.sio.buf (4 + i)) p.sio.card.transferAddr n).2

/-- One byte: the port and the card behind it, the answer, and what has been written to the card. -/
def send (p : Port) (b : Sent) : Port × UInt8 × List (UInt32 × List UInt8) :=
  let res := exchange8 { b.env with cardData := p.cardData b.data.toNat } b.data p.sio
  match cardWrite b.data p.sio with
  | some (adr, l) =>
    (⟨res.1, (p.mc.save b.currentdata (l.getD · 0) adr l.length).2⟩, res.2, [(adr, l)])
  | none => (⟨res.1, p.mc⟩, res.2, [])

def sends (p : Port) : List Sent → Port × List UInt8 × List (UInt32 × List UInt8)
  | [] => (p, [], [])
  | b :: bs =>
    let first := p.send b
    let rest := first.1.sends bs
    (rest.1, first.2.1 :: rest.2.1, first.2.2 ++ rest.2.2)

theorem sends_append (p : Port) (as bs : List Sent) :
    p.sends (as ++ bs) =
      (((p.sends as).1.sends bs).1, (p.sends as).2.1 ++ ((p.sends as).1.sends bs).2.1,
        (p.sends as).2.2 ++ ((p.sends as).1.sends bs).2.2) := by
  induction as generalizing p with
  | nil => rfl
  | cons a as ih =>
    rw [List.cons_append, sends, sends, ih]
    simp only [List.cons_append, List.append_assoc]

end Port

/-- The card after the transfer of some bytes. -/
def Mcd.advance (c : Mcd) (n : UInt8) : Mcd :=
  { c with transferAddr := c.transferAddr + n.toUInt32 }

section Exchange

variable {e : Env} {data : UInt8} {s t : State}

/-- What a byte comes to: what its handler makes of the port, with the buffer counted on. -/
structure Answered (t u : State) (answer : UInt8) : Prop where
  answer : answer = t.buf t.bufCount.toNat
  same : ∃ sr at_, u = { t with statReg := sr, touched := at_, bufCount := t.bufCount + 1 }

theorem or_rxRdy (x y : UInt16) (h : x &&& rxRdy ≠ 0) : (x ||| y) &&& rxRdy ≠ 0 := by
  intro hzero
  refine h ?_
  rw [← UInt16.toBitVec_inj] at hzero ⊢
  ext i hi
  have hbit := congrArg (fun b : BitVec 16 => b[i]) hzero
  simp only [UInt16.toBitVec_and, UInt16.toBitVec_or, BitVec.getElem_and, BitVec.getElem_or] at hbit ⊢
  revert hbit
  cases x.toBitVec[i] <;> cases rxRdy.toBitVec[i] <;> simp

theorem received_eq (e : Env) (t : State) :
    ∃ sr, received e t = { t with statReg := sr } ∧ sr &&& rxRdy ≠ 0 := by
  have hready : (t.statReg ||| rxRdy ||| txEmpty) &&& rxRdy ≠ 0 := by
    rw [UInt16.or_assoc, UInt16.or_comm]
    exact or_rxRdy _ _ (by decide)
  rw [received, interrupt]
  split_ifs
  · exact ⟨_, rfl, hready⟩
  · exact ⟨_, rfl, or_rxRdy _ _ hready⟩
  · exact ⟨_, rfl, or_rxRdy _ _ hready⟩
  · exact ⟨_, rfl, or_rxRdy _ _ (or_rxRdy _ _ hready)⟩

theorem exchange8_answered (hmode : s.siomode ≠ .start)
    (ht : sioWriteMode e data s = received e t) :
    Answered t (exchange8 e data s).1 (exchange8 e data s).2 := by
  obtain ⟨sr, heq, hready⟩ := received_eq e t
  rw [exchange8, sioWrite8, if_neg hmode, ht, heq, sioRead8]
  simp only [hready, ne_eq, not_false_eq_true, if_true]
  refine ⟨rfl, ?_⟩
  split <;> exact ⟨_, _, rfl⟩

/-- Where a transfer is: the mode, the card and the place in the packet. -/
structure At (s : State) (m : Mode) (c : Mcd) (k : Nat) : Prop where
  mode : s.siomode = m
  running : s.hung = false
  card : s.card = c
  count : s.bufCount.toNat = k

theorem Answered.at_ {u : State} {answer : UInt8} (h : Answered t u answer) {m : Mode} {c : Mcd}
    {k : Nat} (ht : At t m c k) (hk : k < 0xFFFF) : At u m c (k + 1) := by
  obtain ⟨sr, at_, rfl⟩ := h.same
  refine ⟨ht.mode, ht.running, ht.card, ?_⟩
  have hcount := ht.count
  have hone : (1 : UInt16).toNat = 1 := rfl
  simp only [UInt16.toNat_add]
  omega

/-- A packet is over, or none has begun. -/
structure Ready (s : State) (m : Mode) (c : Mcd) : Prop where
  mode : s.siomode = m
  running : s.hung = false
  card : s.card = c
  idle : s.bufCount = 0 ∨ (3 ≤ s.bufCount.toNat ∧ s.bufSize < s.bufCount ∧
    (m = .memcardWrite → s.checksumPos.toNat < s.bufCount.toNat))

theorem sioWriteMode_write (h : s.siomode = .memcardWrite)
    (hrun : (memcardWrite e data s).hung = false) :
    sioWriteMode e data s = received e (memcardWrite e data s) := by
  rw [sioWriteMode, h]
  simp only [hrun, Bool.false_eq_true, if_false]

theorem sioWriteMode_read (h : s.siomode = .memcardRead)
    (hrun : (memcardRead e data s).hung = false) :
    sioWriteMode e data s = received e (memcardRead e data s) := by
  rw [sioWriteMode, h]
  simp only [hrun, Bool.false_eq_true, if_false]

theorem exchange8_write (h : s.siomode = .memcardWrite)
    (hrun : (memcardWrite e data s).hung = false) :
    Answered (memcardWrite e data s) (exchange8 e data s).1 (exchange8 e data s).2 :=
  exchange8_answered (by rw [h]; decide) (sioWriteMode_write h hrun)

theorem exchange8_read (h : s.siomode = .memcardRead)
    (hrun : (memcardRead e data s).hung = false) :
    Answered (memcardRead e data s) (exchange8 e data s).1 (exchange8 e data s).2 :=
  exchange8_answered (by rw [h]; decide) (sioWriteMode_read h hrun)

theorem memcardNext_start (hsize : s.bufSize < s.bufCount) :
    memcardNext 0x81 s = { s.statReady with bufCount := 0 } := by
  rw [memcardNext, if_pos ⟨hsize, rfl⟩]

theorem memcardNext_wait (hsize : ¬s.bufSize < s.bufCount) : memcardNext data s = s := by
  rw [memcardNext, if_neg fun h => hsize h.1]

theorem memcardData_behind (h : s.checksumPos.toNat < s.bufCount.toNat) :
    memcardData data s = s := by
  rw [memcardData]
  simp only
  rw [if_neg (by omega), if_neg (by omega)]

theorem memcardWrite_tail (h : 3 ≤ s.bufCount.toNat) (hrun : (memcardData data s).hung = false) :
    memcardWrite e data s = memcardNext data (memcardData data s) := by
  rw [memcardWrite]
  split
  · omega
  · omega
  · omega
  · simp only [hrun, Bool.false_eq_true, if_false]

theorem memcardRead_tail (h : 3 ≤ s.bufCount.toNat) :
    memcardRead e data s = memcardNext data s := by
  rw [memcardRead]
  split
  · omega
  · omega
  · omega
  · rfl

/-- The handlers of the two modes. -/
def handler (m : Mode) (e : Env) (data : UInt8) (s : State) : State :=
  if m = .memcardWrite then memcardWrite e data s else memcardRead e data s

def command (m : Mode) : UInt8 := if m = .memcardWrite then 0x42 else 0x43

theorem exchange8_handler {m : Mode} (hm : m = .memcardWrite ∨ m = .memcardRead)
    (h : s.siomode = m) (hrun : (handler m e data s).hung = false) :
    Answered (handler m e data s) (exchange8 e data s).1 (exchange8 e data s).2 := by
  rcases hm with rfl | rfl
  · exact exchange8_write h hrun
  · exact exchange8_read h hrun

theorem cardWrite_of_lt (h : s.bufCount.toNat < 3) : cardWrite data s = none := by
  rw [cardWrite, if_neg fun hc => absurd hc.2.1 (by omega)]

theorem cardWrite_of_ne (h : s.siomode = .memcardWrite → s.bufCount.toNat ≠ s.checksumPos.toNat) :
    cardWrite data s = none := by
  rw [cardWrite, if_neg fun hc => h hc.1 hc.2.2.1]

theorem Ready.handler {m : Mode} {c : Mcd} (h : Ready s m c)
    (hm : m = .memcardWrite ∨ m = .memcardRead) :
    At (handler m e 0x81 s) m c 0 ∧ (handler m e 0x81 s).buf = s.buf ∧
      cardWrite 0x81 s = none := by
  rcases h.idle with hzero | ⟨hthree, hsize, hpos⟩
  · have hcount : s.bufCount.toNat = 0 := by rw [hzero]; rfl
    have hsame : Sio.handler m e 0x81 s = s := by
      rcases hm with rfl | rfl
      · rw [Sio.handler, if_pos rfl, memcardWrite, hcount]
        rfl
      · rw [Sio.handler, if_neg (by decide), memcardRead, hcount]
        rfl
    rw [hsame]
    exact ⟨⟨h.mode, h.running, h.card, hcount⟩, rfl, cardWrite_of_lt (by omega)⟩
  · have hnext : Sio.handler m e 0x81 s = { s.statReady with bufCount := 0 } := by
      rcases hm with rfl | rfl
      · have hdata : memcardData 0x81 s = s := memcardData_behind (hpos rfl)
        rw [Sio.handler, if_pos rfl, memcardWrite_tail hthree (by rw [hdata]; exact h.running),
          hdata, memcardNext_start hsize]
      · rw [Sio.handler, if_neg (by decide), memcardRead_tail hthree, memcardNext_start hsize]
    rw [hnext]
    refine ⟨⟨h.mode, h.running, h.card, rfl⟩, rfl, cardWrite_of_ne fun hmode => ?_⟩
    have := hpos (h.mode.symm.trans hmode)
    omega

theorem Ready.start {m : Mode} {c : Mcd} (h : Ready s m c)
    (hm : m = .memcardWrite ∨ m = .memcardRead) :
    At (exchange8 e 0x81 s).1 m c 1 ∧ (exchange8 e 0x81 s).1.buf = s.buf ∧
      cardWrite 0x81 s = none := by
  obtain ⟨hat, hbuf, hnone⟩ := h.handler (e := e) hm
  have hans := exchange8_handler hm h.mode hat.running
  refine ⟨hans.at_ hat (by decide), ?_, hnone⟩
  obtain ⟨_, _, hsame⟩ := hans.same
  rw [hsame]
  exact hbuf

theorem At.header {m : Mode} {c : Mcd} (h : At s m c 1)
    (hm : m = .memcardWrite ∨ m = .memcardRead) :
    At (exchange8 e (command m) s).1 m c 2 ∧
      (∀ i, 4 ≤ i → (exchange8 e (command m) s).1.buf i = s.buf i) ∧
      cardWrite (command m) s = none := by
  have hkeep : At (handler m e (command m) s) m c 1 ∧
      ∀ i, 4 ≤ i → (handler m e (command m) s).buf i = s.buf i := by
    have hstore : ∀ i, 4 ≤ i → store s.buf 0 [0xFF, 0xFF, 0xFF, 0x2B] i = s.buf i :=
      fun i hi => store_of_ge _ _ hi
    rcases hm with rfl | rfl
    · rw [handler, if_pos rfl, memcardWrite, h.count]
      simp only [command, memcardHeader, if_true, interrupt]
      split <;> exact ⟨⟨h.mode, h.running, h.card, h.count⟩, hstore⟩
    · rw [handler, if_neg (by decide), memcardRead, h.count]
      simp only [command, memcardHeader, if_true, interrupt, reduceCtorEq, if_false]
      split <;> exact ⟨⟨h.mode, h.running, h.card, h.count⟩, hstore⟩
  have hans := exchange8_handler hm h.mode hkeep.1.running
  refine ⟨hans.at_ hkeep.1 (by decide), fun i hi => ?_, cardWrite_of_lt (by rw [h.count]; decide)⟩
  obtain ⟨_, _, hsame⟩ := hans.same
  rw [hsame]
  exact hkeep.2 i hi

/-- A packet that is written: its size is known, and so many bytes are in the buffer. -/
structure Writing (s : State) (n : UInt8) (c : Mcd) (l : List UInt8) : Prop where
  at_ : At s .memcardWrite c (3 + l.length)
  size : s.writeSize = n
  checksum : s.checksumPos = n + 4
  bufSize : s.bufSize.toNat = n.toNat + 5
  data : load s.buf 4 l.length = l

theorem At.writeSize {c : Mcd} (h : At s .memcardWrite c 2) (n : UInt8) :
    Writing (exchange8 e n s).1 n c [] ∧ cardWrite n s = none := by
  have hwrite : memcardWrite e n s =
      { s.put (n.toNat + 5) s.card.term with
        writeSize := n, bufSize := .ofNat (n.toNat + 5), checksumPos := n + 4 } := by
    rw [memcardWrite, h.count]
    rfl
  have hans := exchange8_write (e := e) h.mode (by rw [hwrite]; exact h.running)
  rw [hwrite] at hans
  have hat := hans.at_ ⟨h.mode, h.running, h.card, h.count⟩ (by decide)
  obtain ⟨_, _, hsame⟩ := hans.same
  refine ⟨⟨hat, by rw [hsame], by rw [hsame], ?_, rfl⟩, cardWrite_of_lt (by rw [h.count]; decide)⟩
  have hlt := n.toNat_lt
  simp only [hsame, UInt16.toNat_ofNat']
  omega

theorem not_lt_of_toNat_le {a b : UInt16} (h : b.toNat ≤ a.toNat) : ¬a < b := by
  rw [UInt16.lt_iff_toNat_lt]
  omega

theorem checksum_toNat {n : UInt8} (h : n.toNat ≤ 251) : (n + 4).toNat = n.toNat + 4 := by
  have hfour : (4 : UInt8).toNat = 4 := rfl
  rw [UInt8.toNat_add]
  omega

theorem Writing.step {n : UInt8} {c : Mcd} {l : List UInt8} (h : Writing s n c l)
    (hn : n.toNat ≤ 251) (hl : l.length ≤ n.toNat) (x : UInt8) :
    Writing (exchange8 e x s).1 n c (l ++ [x]) ∧ cardWrite x s = none := by
  have hcount := h.at_.count
  have hpos : s.checksumPos.toNat = n.toNat + 4 := by rw [h.checksum, checksum_toNat hn]
  have hdata : memcardData x s = s.put (s.bufCount.toNat + 1) x := by
    rw [memcardData]
    simp only
    rw [if_pos (by omega)]
  have hwrite : memcardWrite e x s = s.put (s.bufCount.toNat + 1) x := by
    have hrun : (memcardData x s).hung = false := by
      rw [hdata]
      exact h.at_.running
    rw [memcardWrite_tail (by omega) hrun, hdata]
    exact memcardNext_wait (not_lt_of_toNat_le (by
      have := h.bufSize
      change s.bufCount.toNat ≤ s.bufSize.toNat
      omega))
  have hans := exchange8_write (e := e) h.at_.mode (by rw [hwrite]; exact h.at_.running)
  rw [hwrite] at hans
  have hlt := n.toNat_lt
  have hat := hans.at_ ⟨h.at_.mode, h.at_.running, h.at_.card, hcount⟩ (by omega)
  obtain ⟨_, _, hsame⟩ := hans.same
  refine ⟨⟨?_, by rw [hsame]; exact h.size, by rw [hsame]; exact h.checksum,
    by rw [hsame]; exact h.bufSize, ?_⟩, cardWrite_of_ne fun _ => by omega⟩
  · rw [List.length_append, List.length_singleton, ← Nat.add_assoc]
    exact hat
  · rw [hsame]
    change load (Function.update s.buf (s.bufCount.toNat + 1) x) 4 _ = _
    rw [hcount, List.length_append, List.length_singleton, load_add]
    congr 1
    · refine (load_congr fun i hi => ?_).trans h.data
      rw [Function.update_of_ne (by omega)]
    · simp only [load, List.range_one, List.map_cons, List.map_nil, Nat.add_zero]
      rw [show 3 + l.length + 1 = 4 + l.length by omega, Function.update_self]

/-- The state in which the data has been handed to the card. -/
def committed (s : State) (n : Nat) : State :=
  let v := (load s.buf 4 (n - 4)).foldl (· ^^^ ·) 0
  let t := (((s.peek 4 (n - 4)).peek n 1).put n v).peek 4 s.writeSize.toNat
  t.setCard { t.card with transferAddr := t.card.transferAddr + t.writeSize.toUInt32 }

theorem memcardData_commit {n : Nat} (hcount : s.bufCount.toNat = n)
    (hpos : s.checksumPos.toNat = n) (hfour : 4 ≤ n) (hn : n < 260) (hrun : s.hung = false) :
    memcardData data s = committed s n := by
  have hxor : s.doXor 4 (if 4 ≤ n then n - 4 else 2 ^ 32 + n - 4) =
      (s.peek 4 (n - 4), (load s.buf 4 (n - 4)).foldl (· ^^^ ·) 0) := by
    rw [if_pos hfour, doXor, if_pos (by omega)]
  rw [memcardData]
  simp only [hcount, hpos, Nat.lt_irrefl, if_false, if_true, hxor]
  rw [if_neg (by rw [peek]; simp [hrun])]
  rfl

theorem committed_at {n : Nat} {c : Mcd} (h : At s .memcardWrite c n) :
    At (committed s n) .memcardWrite (c.advance s.writeSize) n := by
  refine ⟨h.mode, h.running, ?_, h.count⟩
  rw [← h.card, Mcd.advance]
  simp only [committed, put, peek, setCard, card, Function.update_self]

/-- The byte behind the checksum writes the data to the card, whatever the checksum was. -/
theorem Writing.commit {n : UInt8} {c : Mcd} {l : List UInt8} (h : Writing s n c l)
    (hn : n.toNat ≤ 251) (hl : l.length = n.toNat + 1) (x : UInt8) :
    At (exchange8 e x s).1 .memcardWrite (c.advance n) (n.toNat + 5) ∧
      (exchange8 e x s).1.bufSize.toNat = n.toNat + 5 ∧
      (exchange8 e x s).1.checksumPos.toNat = n.toNat + 4 ∧
      cardWrite x s = some (c.transferAddr, l.take n.toNat) := by
  have hcount : s.bufCount.toNat = n.toNat + 4 := by
    have := h.at_.count
    omega
  have hpos : s.checksumPos.toNat = n.toNat + 4 := by rw [h.checksum, checksum_toNat hn]
  have hdata : memcardData x s = committed s (n.toNat + 4) :=
    memcardData_commit hcount hpos (by omega) (by omega) h.at_.running
  have hat : At (committed s (n.toNat + 4)) .memcardWrite (c.advance n) (n.toNat + 4) := by
    have := committed_at (s := s) ⟨h.at_.mode, h.at_.running, h.at_.card, hcount⟩
    rwa [h.size] at this
  have hwrite : memcardWrite e x s = committed s (n.toNat + 4) := by
    rw [memcardWrite_tail (by omega) (by rw [hdata]; exact hat.running), hdata]
    exact memcardNext_wait (not_lt_of_toNat_le (by
      have hsize := h.bufSize
      change s.bufCount.toNat ≤ s.bufSize.toNat
      omega))
  have hans := exchange8_write (e := e) h.at_.mode (by rw [hwrite]; exact hat.running)
  rw [hwrite] at hans
  obtain ⟨_, _, hsame⟩ := hans.same
  refine ⟨hans.at_ hat (by omega), by rw [hsame]; exact h.bufSize, by rw [hsame]; exact hpos, ?_⟩
  rw [cardWrite, if_pos ⟨h.at_.mode, by omega, by omega, by rw [hdata]; exact hat.running⟩, hdata,
    h.at_.card, h.size]
  have hload : load (committed s (n.toNat + 4)).buf 4 n.toNat = load s.buf 4 n.toNat :=
    load_congr fun i hi => Function.update_of_ne (by omega) _ _
  have htake : load s.buf 4 n.toNat = l.take n.toNat := by
    have hall := h.data
    rw [hl] at hall
    rw [← hall]
    exact (take_drop_load s.buf 4 (k := 0) (by omega)).symm
  rw [hload, htake]

theorem exchange8_last {n : Nat} {c : Mcd} (h : At s .memcardWrite c (n + 5)) (hn : n ≤ 251)
    (hsize : s.bufSize.toNat = n + 5) (hpos : s.checksumPos.toNat = n + 4) (x : UInt8) :
    Ready (exchange8 e x s).1 .memcardWrite c ∧ cardWrite x s = none := by
  have hcount := h.count
  have hdata : memcardData x s = s := memcardData_behind (by omega)
  have hwrite : memcardWrite e x s = s := by
    rw [memcardWrite_tail (by omega) (by rw [hdata]; exact h.running), hdata]
    exact memcardNext_wait (not_lt_of_toNat_le (by omega))
  have hans := exchange8_write (e := e) h.mode (by rw [hwrite]; exact h.running)
  rw [hwrite] at hans
  have hat := hans.at_ h (by omega)
  obtain ⟨_, _, hsame⟩ := hans.same
  have hcount' := hat.count
  refine ⟨⟨hat.mode, hat.running, hat.card, Or.inr ⟨by omega, ?_, fun _ => ?_⟩⟩,
    cardWrite_of_ne fun _ => by omega⟩
  · rw [UInt16.lt_iff_toNat_lt, hcount', hsame]
    simp only [hsize]
    omega
  · rw [hcount', hsame]
    simp only [hpos]
    omega

/-- A packet that is read: the answer is in the buffer, up to its last byte. -/
structure Reading (s : State) (n : UInt8) (c : Mcd) (k : Nat) (l : List UInt8) : Prop where
  at_ : At s .memcardRead c k
  bufSize : s.bufSize.toNat = n.toNat + 5
  data : load s.buf 4 (n.toNat + 2) = l

/-- The answer to a read: the bytes, their exclusive or and the terminator. -/
def answerOf (l : List UInt8) (term : UInt8) : List UInt8 := l ++ [l.foldl (· ^^^ ·) 0, term]

/-- The state in which a packet has been read. -/
def readState (e : Env) (n : UInt8) (s : State) : State :=
  let l := load e.cardData 0 n.toNat
  let t := { s with readSize := n }.copy 4 l
  let t := (t.setCard { t.card with transferAddr := t.card.transferAddr + n.toUInt32 }).peek 4 n.toNat
  { (t.put (n.toNat + 4) (l.foldl (· ^^^ ·) 0)).put (n.toNat + 5) t.card.term with
    bufSize := .ofNat (n.toNat + 5) }

theorem memcardRead_size (h : s.bufCount.toNat = 2) (n : UInt8) :
    memcardRead e n s = readState e n s := by
  have hrange : (List.range n.toNat).map e.cardData = load e.cardData 0 n.toNat := by
    simp only [load, Nat.zero_add]
  have hxor : ∀ t : State, t.doXor 4 n.toNat =
      (t.peek 4 n.toNat, (load t.buf 4 n.toNat).foldl (· ^^^ ·) 0) := fun t => by
    rw [doXor, if_pos n.toNat_lt]
  have hload : load (store s.buf 4 (load e.cardData 0 n.toNat)) 4 n.toNat =
      load e.cardData 0 n.toNat := by
    have := load_store_self s.buf 4 (load e.cardData 0 n.toNat)
    rwa [length_load] at this
  rw [memcardRead, h]
  simp only [hrange, hxor, readState, copy, setCard, hload]

theorem readState_buf (e : Env) (n : UInt8) (s : State) : (readState e n s).buf =
    Function.update (Function.update (store s.buf 4 (load e.cardData 0 n.toNat)) (n.toNat + 4)
      ((load e.cardData 0 n.toNat).foldl (· ^^^ ·) 0)) (n.toNat + 5) s.card.term := by
  simp only [readState, put, peek, copy, setCard, card, Function.update_self]

theorem readState_card (e : Env) (n : UInt8) (s : State) :
    (readState e n s).card = s.card.advance n := by
  rw [Mcd.advance]
  simp only [readState, put, peek, copy, setCard, card, Function.update_self]

theorem At.readSize {c : Mcd} (h : At s .memcardRead c 2) (n : UInt8) :
    Reading (exchange8 e n s).1 n (c.advance n) 3
      (answerOf (load e.cardData 0 n.toNat) s.card.term) := by
  have hlt := n.toNat_lt
  have hread := memcardRead_size (e := e) h.count n
  have hat : At (readState e n s) .memcardRead (c.advance n) 2 := by
    refine ⟨h.mode, h.running, ?_, h.count⟩
    rw [readState_card, h.card]
  have hans := exchange8_read (e := e) h.mode (by rw [hread]; exact hat.running)
  rw [hread] at hans
  obtain ⟨_, _, hsame⟩ := hans.same
  refine ⟨hans.at_ hat (by decide), ?_, ?_⟩
  · rw [hsame]
    simp only [readState, UInt16.toNat_ofNat']
    omega
  · -- the bytes stand before their sum and the terminator
    rw [hsame]
    change load (readState e n s).buf 4 (n.toNat + 2) = _
    rw [readState_buf, answerOf, load_add]
    congr 1
    · refine (load_congr fun i hi => ?_).trans
        ((congrArg (load _ 4) (length_load e.cardData 0 n.toNat).symm).trans
          (load_store_self s.buf 4 _))
      rw [Function.update_of_ne (by omega), Function.update_of_ne (by omega)]
    · simp only [load, List.range_succ, List.range_zero, List.nil_append,
        List.map_cons, List.map_nil, Nat.add_zero, List.cons_append]
      rw [show 4 + n.toNat + 1 = n.toNat + 5 by omega, Function.update_self,
        Function.update_of_ne (by omega), show 4 + n.toNat = n.toNat + 4 by omega,
        Function.update_self]

theorem Reading.step {n : UInt8} {c : Mcd} {k : Nat} {l : List UInt8}
    (h : Reading s n c k l) (hk : 3 ≤ k) (hn : k ≤ n.toNat + 5) (x : UInt8) :
    Reading (exchange8 e x s).1 n c (k + 1) l ∧ (exchange8 e x s).2 = s.buf k ∧
      (exchange8 e x s).1.buf = s.buf := by
  have hcount := h.at_.count
  have hlt := n.toNat_lt
  have hread : memcardRead e x s = s := by
    rw [memcardRead_tail (by omega)]
    exact memcardNext_wait (not_lt_of_toNat_le (by have := h.bufSize; omega))
  have hans := exchange8_read (e := e) h.at_.mode (by rw [hread]; exact h.at_.running)
  rw [hread] at hans
  have hat := hans.at_ h.at_ (by omega)
  have hanswer := hans.answer
  rw [hcount] at hanswer
  obtain ⟨_, _, hsame⟩ := hans.same
  exact ⟨⟨hat, by rw [hsame]; exact h.bufSize, by rw [hsame]; exact h.data⟩, hanswer, by rw [hsame]⟩

end Exchange

namespace Port

variable {p : Port} {b : Sent} {c : Mcd} {n : UInt8}

/-- What the port has around it when a byte is sent. -/
def env (p : Port) (b : Sent) : Env := { b.env with cardData := p.cardData b.data.toNat }

theorem send_none (h : cardWrite b.data p.sio = none) :
    p.send b = (⟨(exchange8 (p.env b) b.data p.sio).1, p.mc⟩, (exchange8 (p.env b) b.data p.sio).2, []) := by
  rw [send, h]
  rfl

theorem send_some {adr : UInt32} {l : List UInt8} (h : cardWrite b.data p.sio = some (adr, l)) :
    p.send b = (⟨(exchange8 (p.env b) b.data p.sio).1,
      (p.mc.save b.currentdata (l.getD · 0) adr l.length).2⟩,
      (exchange8 (p.env b) b.data p.sio).2, [(adr, l)]) := by
  rw [send, h]
  rfl

theorem sends_data {l : List UInt8} (h : Writing p.sio n c l) (hn : n.toNat ≤ 251)
    (bs : List Sent) (hl : l.length + bs.length ≤ n.toNat + 1) :
    Writing (p.sends bs).1.sio n c (l ++ bs.map Sent.data) ∧ (p.sends bs).1.mc = p.mc ∧
      (p.sends bs).2.2 = [] := by
  induction bs generalizing p l with
  | nil => exact ⟨by rw [List.map_nil, List.append_nil]; exact h, rfl, rfl⟩
  | cons b bs ih =>
    rw [List.length_cons] at hl
    obtain ⟨hstep, hnone⟩ := h.step (e := p.env b) hn (by omega) b.data
    have hsend := send_none (p := p) hnone
    rw [sends, hsend]
    obtain ⟨hwriting, hmc, hwrites⟩ := @ih ⟨_, p.mc⟩ _ hstep (by
      rw [List.length_append, List.length_singleton]
      omega)
    rw [List.append_assoc] at hwriting
    exact ⟨hwriting, hmc, hwrites⟩

theorem map_data_two {bs : List Sent} {x y : UInt8} (h : bs.map Sent.data = [x, y]) :
    ∃ b b', bs = [b, b'] ∧ b.data = x ∧ b'.data = y := by
  obtain ⟨b, cs, rfl, hb, hcs⟩ := List.map_eq_cons_iff.mp h
  obtain ⟨b', ds, rfl, hb', hds⟩ := List.map_eq_cons_iff.mp hcs
  obtain rfl := List.map_eq_nil_iff.mp hds
  exact ⟨b, b', rfl, hb, hb'⟩

theorem sends_command {m : Mode} (h : Ready p.sio m c)
    (hm : m = .memcardWrite ∨ m = .memcardRead) {bs : List Sent}
    (hbs : bs.map Sent.data = [0x81, command m]) :
    At (p.sends bs).1.sio m c 2 ∧ (∀ i, 4 ≤ i → (p.sends bs).1.sio.buf i = p.sio.buf i) ∧
      (p.sends bs).1.mc = p.mc ∧ (p.sends bs).2.2 = [] ∧ (p.sends bs).2.1.length = 2 := by
  obtain ⟨b, b', rfl, hb, hb'⟩ := map_data_two hbs
  obtain ⟨hat, hbuf, hnone⟩ := h.start (e := p.env b) hm
  rw [← hb] at hat hbuf hnone
  have hsend := send_none hnone
  obtain ⟨hat', hbuf', hnone'⟩ := hat.header (e := (⟨_, p.mc⟩ : Port).env b') hm
  rw [← hb'] at hat' hbuf' hnone'
  have hsend' := send_none (p := ⟨_, p.mc⟩) hnone'
  rw [sends, sends, sends, hsend, hsend']
  exact ⟨hat', fun i hi => (hbuf' i hi).trans (congrFun hbuf i), rfl, rfl, rfl⟩

/-- The bytes of a packet that writes: the command, the size, the data, the checksum, and two to
read the end of the answer. -/
def writePacket (n : UInt8) (l : List UInt8) (checksum x y : UInt8) : List UInt8 :=
  [0x81, 0x42] ++ n :: ((l ++ [checksum]) ++ [x, y])

/-- A packet that writes hands its data to the card once, at the address, and moves it on, whatever
the checksum is. -/
theorem sends_writePacket (h : Ready p.sio .memcardWrite c) (hn : n.toNat ≤ 251)
    {l : List UInt8} (hl : l.length = n.toNat) {checksum x y : UInt8} {bs : List Sent}
    (hbs : bs.map Sent.data = writePacket n l checksum x y) :
    Ready (p.sends bs).1.sio .memcardWrite (c.advance n) ∧
      (p.sends bs).2.2 = [(c.transferAddr, l)] ∧
      ∃ currentdata,
        (p.sends bs).1.mc = (p.mc.save currentdata (l.getD · 0) c.transferAddr l.length).2 := by
  obtain ⟨head, body, rfl, hhead, hbody⟩ := List.map_eq_append_iff.mp hbs
  obtain ⟨b, rest, rfl, rfl, hrest⟩ := List.map_eq_cons_iff.mp hbody
  obtain ⟨ds, tail, rfl, hds, htail⟩ := List.map_eq_append_iff.mp hrest
  obtain ⟨b', b'', rfl, -, -⟩ := map_data_two htail
  have hlen : ds.length = b.data.toNat + 1 := by
    rw [← List.length_map, hds, List.length_append, List.length_singleton, hl]
  -- the command and the size
  obtain ⟨hat, -, hmc₁, hw₁, -⟩ := sends_command h (Or.inl rfl) hhead
  rw [sends_append, sends]
  generalize p.sends head = s₁ at hat hmc₁ hw₁ ⊢
  obtain ⟨hwriting, hnone⟩ := hat.writeSize (e := s₁.1.env b) b.data
  rw [send_none hnone, sends_append, sends, sends, sends]
  -- the data and the checksum
  obtain ⟨hdata, hmc₂, hw₂⟩ := @sends_data ⟨_, s₁.1.mc⟩ c b.data [] hwriting hn ds (by
    rw [List.length_nil, hlen]
    omega)
  rw [List.nil_append, hds] at hdata
  generalize (⟨_, s₁.1.mc⟩ : Port).sends ds = s₂ at hdata hmc₂ hw₂ ⊢
  -- the two bytes behind them
  obtain ⟨hend, hsize, hpos, hwrite⟩ := hdata.commit (e := s₂.1.env b') hn (by
    rw [List.length_append, List.length_singleton, hl]) b'.data
  rw [← hl, List.take_left] at hwrite
  rw [send_some hwrite]
  obtain ⟨hready, hnone'⟩ := exchange8_last (e := Port.env ⟨_, _⟩ b'') hend hn hsize hpos b''.data
  rw [send_none (p := ⟨_, _⟩) hnone']
  refine ⟨hready, ?_, b'.currentdata, ?_⟩
  · rw [hw₁, hw₂]
    rfl
  · rw [← hmc₁, ← hmc₂]

theorem sends_reading {k : Nat} {l : List UInt8} (h : Reading p.sio n c k l) (hk : 3 ≤ k)
    (bs : List Sent) (hn : k + bs.length ≤ n.toNat + 6) :
    Reading (p.sends bs).1.sio n c (k + bs.length) l ∧ (p.sends bs).1.mc = p.mc ∧
      (p.sends bs).2 = (load p.sio.buf k bs.length, []) := by
  induction bs generalizing p k with
  | nil => exact ⟨h, rfl, rfl⟩
  | cons b bs ih =>
    rw [List.length_cons] at hn
    obtain ⟨hstep, hanswer, hbuf⟩ := h.step (e := p.env b) hk (by omega) b.data
    have hnone : cardWrite b.data p.sio = none := cardWrite_of_ne fun hmode => by
      rw [h.at_.mode] at hmode
      exact absurd hmode (by decide)
    rw [sends, send_none hnone]
    obtain ⟨hreading, hmc, hans⟩ := @ih ⟨_, p.mc⟩ (k + 1) hstep (by omega) (by omega)
    refine ⟨?_, hmc, ?_⟩
    · rw [List.length_cons, Nat.add_comm bs.length, ← Nat.add_assoc]
      exact hreading
    · rw [hans, hanswer, List.length_cons, Nat.add_comm bs.length, load_add, hbuf]
      rfl

/-- The bytes of a packet that reads: the command, the size, and one for each byte of the answer. -/
def ReadPacket (n : UInt8) (l : List UInt8) : Prop :=
  ∃ l', l = [0x81, 0x43] ++ n :: l' ∧ l'.length = n.toNat + 3

/-- A packet that reads is answered with the card's bytes, their sum and the terminator, and moves
the address on. -/
theorem sends_readPacket (h : Ready p.sio .memcardRead c) {bs : List Sent}
    (hbs : ReadPacket n (bs.map Sent.data)) :
    Ready (p.sends bs).1.sio .memcardRead (c.advance n) ∧ (p.sends bs).1.mc = p.mc ∧
      (p.sends bs).2.2 = [] ∧
      (p.sends bs).2.1.drop 4 = answerOf (load (p.cardData n.toNat) 0 n.toNat) c.term := by
  obtain ⟨l, hl, hlen⟩ := hbs
  obtain ⟨head, body, rfl, hhead, hbody⟩ := List.map_eq_append_iff.mp hl
  obtain ⟨b, ds, rfl, rfl, rfl⟩ := List.map_eq_cons_iff.mp hbody
  rw [List.length_map] at hlen
  have hlt := b.data.toNat_lt
  -- the command and the size
  obtain ⟨hat, hbuf, hmc, hw, hans⟩ := sends_command h (Or.inr rfl) hhead
  rw [sends_append, sends]
  generalize p.sends head = s₁ at hat hbuf hmc hw hans ⊢
  have hnone : cardWrite b.data s₁.1.sio = none := cardWrite_of_lt (by rw [hat.count]; decide)
  have hread := hat.readSize (e := s₁.1.env b) b.data
  have hcard : (s₁.1.env b).cardData = p.cardData b.data.toNat := by
    change s₁.1.cardData b.data.toNat = _
    rw [cardData, cardData, hmc, hat.card, h.card]
    congr 2
    funext i
    exact hbuf (4 + i) (Nat.le_add_right 4 i)
  rw [hcard, hat.card] at hread
  rw [send_none hnone]
  -- the rest of the answer
  obtain ⟨hend, hmc₂, hrest⟩ := @sends_reading ⟨_, s₁.1.mc⟩ _ _ 3 _ hread (by decide) ds (by omega)
  rw [hrest]
  generalize (⟨_, s₁.1.mc⟩ : Port).sends ds = s₂ at hend hmc₂ hrest ⊢
  refine ⟨⟨hend.at_.mode, hend.at_.running, hend.at_.card, Or.inr ⟨?_, ?_, fun hmode => ?_⟩⟩,
    hmc₂.trans hmc, ?_, ?_⟩
  · rw [hend.at_.count]
    omega
  · rw [UInt16.lt_iff_toNat_lt, hend.at_.count, hend.bufSize]
    omega
  · exact absurd hmode (by decide)
  · rw [hw]
    rfl
  · rw [hlen, show b.data.toNat + 3 = 1 + (b.data.toNat + 2) by omega, load_add]
    obtain ⟨x, y, hxy⟩ := List.length_eq_two.mp hans
    rw [hxy]
    exact hread.data

end Port

end OmegaRed.Sio
