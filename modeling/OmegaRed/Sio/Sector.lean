import OmegaRed.Sio.Transfer

/-! A sector in packets of any sizes: what is written is what is read. -/

namespace OmegaRed.Sio

open State Lib.Memory Memcard FileMemoryCard CDVD

namespace Port

/-- Packets that write some chunks one after the other. -/
inductive WritePackets : List (List UInt8) → List Sent → Prop
  | nil : WritePackets [] []
  | cons {l : List UInt8} {ls : List (List UInt8)} {bs bs' : List Sent} (n checksum x y : UInt8)
      (hn : n.toNat ≤ 251) (hl : l.length = n.toNat)
      (hbs : bs.map Sent.data = writePacket n l checksum x y) (h : WritePackets ls bs') :
      WritePackets (l :: ls) (bs ++ bs')

/-- Packets that read chunks of some sizes one after the other. -/
inductive ReadPackets : List UInt8 → List Sent → Prop
  | nil : ReadPackets [] []
  | cons {n : UInt8} {ns : List UInt8} {bs bs' : List Sent} (hbs : ReadPacket n (bs.map Sent.data))
      (h : ReadPackets ns bs') : ReadPackets (n :: ns) (bs ++ bs')

def total (ns : List UInt8) : Nat := (ns.map UInt8.toNat).sum

/-- The card's bytes in the answers to packets that read. -/
def dataOf : List UInt8 → List UInt8 → List UInt8
  | [], _ => []
  | n :: ns, answers => (answers.drop 4).take n.toNat ++ dataOf ns (answers.drop (n.toNat + 6))

theorem seek_add {file : List UInt8} {adr : UInt32} {n : UInt8}
    (h : seek file adr + n.toNat < 2 ^ 32) :
    seek file (adr + n.toUInt32) = seek file adr + n.toNat := by
  have hn : n.toUInt32.toNat = n.toNat := UInt8.toNat_toUInt32 n
  rw [seek] at h ⊢
  rw [seek, UInt32.toNat_add, hn]
  omega

theorem seek_congr {file file' : List UInt8} (h : file'.length = file.length) (adr : UInt32) :
    seek file' adr = seek file adr := by
  rw [seek, seek, h]

theorem getD_save {file : List UInt8} {pos : Nat} {l : List UInt8}
    (h : pos + l.length ≤ file.length) (i : Nat) :
    (fwrite file pos (load (merged file (l.getD · 0) pos) 0 l.length)).getD i 0 =
      if pos ≤ i ∧ i < pos + l.length then file.getD i 0 &&& l.getD (i - pos) 0
      else file.getD i 0 := by
  rw [getD_fwrite (by rw [length_load]; exact h)]
  split
  · next hin =>
    obtain ⟨j, rfl⟩ := Nat.exists_eq_add_of_le hin.1
    rw [store_of_mem _ (getElem?_load _ (show j < l.length by omega)), merged,
      Nat.add_sub_cancel_left, Nat.zero_add]
  · next hout =>
    by_cases hlt : i < pos
    · exact store_of_lt _ _ hlt
    · exact store_of_ge _ _ (by rw [length_load]; omega)

/-- The file of a card after some bytes have been saved over it. -/
structure SavedOver (file : List UInt8) (pos : Nat) (l : List UInt8) (file' : List UInt8) : Prop where
  length : file'.length = file.length
  bytes : ∀ i, file'.getD i 0 =
    if pos ≤ i ∧ i < pos + l.length then file.getD i 0 &&& l.getD (i - pos) 0 else file.getD i 0

theorem SavedOver.trans {file file' file'' l l' : List UInt8} {pos : Nat}
    (h : SavedOver file pos l file') (h' : SavedOver file' (pos + l.length) l' file'') :
    SavedOver file pos (l ++ l') file'' := by
  refine ⟨h'.length.trans h.length, fun i => ?_⟩
  rw [h'.bytes, h.bytes, List.length_append]
  simp only [List.getD_eq_getElem?_getD]
  by_cases hl : pos ≤ i ∧ i < pos + l.length
  · rw [if_neg (by omega), if_pos hl, if_pos (by omega), List.getElem?_append_left (by omega)]
  · by_cases hl' : pos + l.length ≤ i ∧ i < pos + l.length + l'.length
    · rw [if_pos hl', if_neg hl, if_pos (by omega), List.getElem?_append_right (by omega),
        show i - (pos + l.length) = i - pos - l.length by omega]
    · rw [if_neg hl', if_neg hl, if_neg (by omega)]

theorem sends_writePackets {p : Port} {c : Mcd} {ls : List (List UInt8)} {bs : List Sent}
    (hbs : WritePackets ls bs) (h : Ready p.sio .memcardWrite c) {file : List UInt8}
    {chksum : UInt64} (hmc : p.mc = ⟨some file, false, chksum⟩)
    (hfit : seek file c.transferAddr + ls.flatten.length ≤ file.length)
    (hlow : seek file c.transferAddr + ls.flatten.length < 2 ^ 32) :
    ∃ file' chksum', (p.sends bs).1.mc = ⟨some file', false, chksum'⟩ ∧
      SavedOver file (seek file c.transferAddr) ls.flatten file' := by
  induction hbs generalizing p c file chksum with
  | nil =>
    refine ⟨file, chksum, hmc, rfl, fun i => ?_⟩
    rw [if_neg (by simp)]
  | @cons l ls bs bs' n checksum x y hn hl hbs hrest ih =>
    rw [List.flatten_cons, List.length_append] at hfit hlow
    obtain ⟨hready, -, currentdata, hsave⟩ := sends_writePacket h hn hl hbs
    rw [hmc, save_eq _ _ _ (by omega)] at hsave
    have hover : SavedOver file (seek file c.transferAddr) l (fwrite file (seek file c.transferAddr)
        (load (merged file (l.getD · 0) (seek file c.transferAddr)) 0 l.length)) :=
      ⟨length_fwrite (by rw [length_load]; omega), getD_save (by omega)⟩
    generalize fwrite file (seek file c.transferAddr)
      (load (merged file (l.getD · 0) (seek file c.transferAddr)) 0 l.length) = file₁ at hsave hover
    have hseek : seek file₁ (c.advance n).transferAddr = seek file c.transferAddr + l.length := by
      rw [seek_congr hover.length, hl]
      exact seek_add (by omega)
    rw [sends_append]
    obtain ⟨file', chksum', hmc', hover'⟩ := ih hready hsave
      (by rw [hseek, hover.length]; omega) (by rw [hseek]; omega)
    rw [hseek] at hover'
    exact ⟨file', chksum', hmc', hover.trans hover'⟩

theorem length_sends (p : Port) (bs : List Sent) : (p.sends bs).2.1.length = bs.length := by
  induction bs generalizing p with
  | nil => rfl
  | cons b bs ih => exact congrArg (· + 1) (ih _)

theorem load_cardData {p : Port} {c : Mcd} {m : Mode} (h : Ready p.sio m c) {file : List UInt8}
    {ps2 : Bool} {chksum : UInt64} (hmc : p.mc = ⟨some file, ps2, chksum⟩) {n : Nat}
    (hfit : seek file c.transferAddr + n ≤ file.length) :
    load (p.cardData n) 0 n = load (file.getD · 0) (seek file c.transferAddr) n := by
  have hlen : (fread file (seek file c.transferAddr) n).length = n := by
    rw [length_fread]
    omega
  rw [cardData, hmc, h.card]
  refine (load_ext_iff.mpr fun i hi => ?_)
  have hmem := store_of_mem (fun i => p.sio.buf (4 + i)) (a := 0)
    (List.getElem?_eq_getElem (hlen.symm ▸ hi))
  rw [← List.getD_eq_getElem _ 0 (hlen.symm ▸ hi), getD_fread _ _ hi] at hmem
  exact hmem

theorem sends_readPackets {q : Port} {c : Mcd} {ns : List UInt8} {bs : List Sent}
    (hbs : ReadPackets ns bs) (h : Ready q.sio .memcardRead c) {file : List UInt8} {ps2 : Bool}
    {chksum : UInt64} (hmc : q.mc = ⟨some file, ps2, chksum⟩)
    (hfit : seek file c.transferAddr + total ns ≤ file.length)
    (hlow : seek file c.transferAddr + total ns < 2 ^ 32) :
    dataOf ns (q.sends bs).2.1 =
      load (file.getD · 0) (seek file c.transferAddr) (total ns) := by
  induction hbs generalizing q c with
  | nil => rfl
  | @cons n ns bs bs' hpacket hrest ih =>
    have htotal : total (n :: ns) = n.toNat + total ns := rfl
    rw [htotal] at hfit hlow ⊢
    obtain ⟨hready, hmc', -, hans⟩ := sends_readPacket h hpacket
    have hlen : (q.sends bs).2.1.length = n.toNat + 6 := by
      obtain ⟨l', hl', hlen'⟩ := hpacket
      rw [length_sends, ← List.length_map (f := Sent.data), hl']
      simp only [List.length_append, List.length_cons, List.length_nil, hlen']
      omega
    have hseek : seek file (c.advance n).transferAddr = seek file c.transferAddr + n.toNat :=
      seek_add (by omega)
    have htail := ih hready (hmc'.trans hmc) (by rw [hseek]; omega) (by rw [hseek]; omega)
    rw [hseek] at htail
    rw [sends_append, dataOf, ← hlen, List.drop_left, htail, load_add,
      List.drop_append_of_le_length (by omega), hans, answerOf, load_cardData h hmc (by omega),
      List.append_assoc, List.take_left' (length_load _ _ _)]

/-- A packet writes its data to the card once, at the address, whatever its checksum is; a packet is
answered with the card's bytes, their sum and the terminator; and what is written in packets of any
sizes is read in packets of any sizes, where it was erased before. -/
theorem memcard_transfers :
    (∀ (p : Port) (c : Mcd) (n checksum x y : UInt8) (l : List UInt8) (bs : List Sent),
      Ready p.sio .memcardWrite c → n.toNat ≤ 251 → l.length = n.toNat →
      bs.map Sent.data = writePacket n l checksum x y →
      Ready (p.sends bs).1.sio .memcardWrite (c.advance n) ∧
        (p.sends bs).2.2 = [(c.transferAddr, l)] ∧
        ∃ currentdata,
          (p.sends bs).1.mc = (p.mc.save currentdata (l.getD · 0) c.transferAddr l.length).2) ∧
    (∀ (p : Port) (c : Mcd) (n : UInt8) (bs : List Sent), Ready p.sio .memcardRead c →
      ReadPacket n (bs.map Sent.data) →
      Ready (p.sends bs).1.sio .memcardRead (c.advance n) ∧ (p.sends bs).1.mc = p.mc ∧
        (p.sends bs).2.2 = [] ∧
        (p.sends bs).2.1.drop 4 = answerOf (load (p.cardData n.toNat) 0 n.toNat) c.term) ∧
    ∀ (p q : Port) (c c' : Mcd) (ls : List (List UInt8)) (ns : List UInt8) (bs bs' : List Sent)
      (file : List UInt8) (chksum : UInt64),
      Ready p.sio .memcardWrite c → Ready q.sio .memcardRead c' →
      c'.transferAddr = c.transferAddr → p.mc = ⟨some file, false, chksum⟩ →
      WritePackets ls bs → q.mc = (p.sends bs).1.mc → ReadPackets ns bs' →
      total ns = ls.flatten.length → seek file c.transferAddr + total ns ≤ file.length →
      seek file c.transferAddr + total ns < 2 ^ 32 →
      (∀ i < total ns, file.getD (seek file c.transferAddr + i) 0 = 0xFF) →
      dataOf ns (q.sends bs').2.1 = ls.flatten := by
  refine ⟨fun p c n checksum x y l bs h hn hl hbs => sends_writePacket h hn hl hbs,
    fun p c n bs h hbs => sends_readPacket h hbs, ?_⟩
  intro p q c c' ls ns bs bs' file chksum hp hq hadr hmc hbs hcard hbs' htotal hfit hlow herased
  obtain ⟨file', chksum', hmc', hover⟩ :=
    sends_writePackets hbs hp hmc (by rw [← htotal]; exact hfit) (by rw [← htotal]; exact hlow)
  have hseek : seek file' c'.transferAddr = seek file c.transferAddr := by
    rw [seek_congr hover.length, hadr]
  rw [sends_readPackets hbs' hq (hcard.trans hmc') (by rw [hseek, hover.length]; exact hfit)
    (by rw [hseek]; exact hlow), hseek, htotal]
  refine List.ext_getElem (length_load _ _ _) fun i hi hi' => ?_
  have hget := getElem?_load (file'.getD · 0) (a := seek file c.transferAddr) hi'
  rw [List.getElem?_eq_getElem hi, Option.some.injEq] at hget
  rw [hget, hover.bytes, if_pos (by omega), herased i (by omega), Nat.add_sub_cancel_left,
    List.getD_eq_getElem _ 0 hi']
  exact UInt8.neg_one_and

section Erased

/-- A card at its first address. -/
def first : Mcd := ⟨0x55, false, 0, 0, 0, 0⟩

/-- A slot in a mode, between packets. -/
def idle (m : Mode) : State :=
  ⟨0, 0, fun _ => 0, 0, 0, 0, 0, 0, fun _ => 0, m, fun _ => first, (0, 0), 0, false, 0, 0, 0, false,
    0, false, 0, fun _ => 0, [], false⟩

def sent (data : UInt8) : Sent :=
  ⟨data, ⟨0, 0, 0, false, true, false, false, fun _ => 0, Vector.replicate 8 0, 0, false⟩, fun _ => 0⟩

theorem ready_idle (m : Mode) : Ready (idle m) m first :=
  ⟨rfl, rfl, rfl, Or.inl rfl⟩

/-- A card of four erased bytes. -/
def erased : FileMemoryCard := ⟨some [0xFF, 0xFF, 0xFF, 0xFF], false, 0⟩

/-- The bytes of a packet of two, with a checksum that is right only if it is `3`. -/
def twoBytes (checksum : UInt8) : List Sent := (writePacket 2 [1, 2] checksum 0 0).map sent

/-- A packet that reads one byte. -/
def oneByte : List UInt8 := [0x81, 0x43, 1, 0, 0, 0, 0]

theorem map_sent (l : List UInt8) : (l.map sent).map Sent.data = l := by
  rw [List.map_map]
  exact List.map_id l

theorem writePackets_twoBytes (checksum : UInt8) : WritePackets [[1, 2]] (twoBytes checksum) := by
  have hcons := WritePackets.cons (l := [1, 2]) 2 checksum 0 0 (by decide) rfl (map_sent _) .nil
  rw [List.append_nil] at hcons
  exact hcons

/-- Two bytes are written in one packet and read in two. -/
theorem memcard_transfers_erased :
    (Port.sends ⟨idle .memcardWrite, erased⟩ (twoBytes 3)).2.2 = [(0, [1, 2])] ∧
      dataOf [1, 1] (Port.sends
        ⟨idle .memcardRead, (Port.sends ⟨idle .memcardWrite, erased⟩ (twoBytes 3)).1.mc⟩
        (oneByte.map sent ++ oneByte.map sent)).2.1 = [1, 2] := by
  have hone : ReadPacket 1 ((oneByte.map sent).map Sent.data) := ⟨[0, 0, 0, 0], map_sent _, rfl⟩
  have hread : ReadPackets [1, 1] (oneByte.map sent ++ oneByte.map sent) := by
    have hlast := ReadPackets.cons hone .nil
    rw [List.append_nil] at hlast
    exact .cons hone hlast
  have hready := ready_idle .memcardWrite
  have hwrite := writePackets_twoBytes 3
  have hwrites := (memcard_transfers.1 ⟨idle .memcardWrite, erased⟩ first 2 3 0 0 [1, 2] (twoBytes 3)
    hready (by decide) rfl (map_sent _)).2.1
  refine ⟨hwrites, ?_⟩
  generalize hq : (Port.sends ⟨idle .memcardWrite, erased⟩ (twoBytes 3)).1.mc = mc
  refine memcard_transfers.2.2 ⟨idle .memcardWrite, erased⟩ ⟨idle .memcardRead, mc⟩ first first
    [[1, 2]] [1, 1] (twoBytes 3) _ [0xFF, 0xFF, 0xFF, 0xFF] 0 hready (ready_idle .memcardRead) rfl rfl
    hwrite hq.symm hread rfl (by decide) (by decide) fun i hi => ?_
  have hi : i < 2 := hi
  obtain rfl | rfl : i = 0 ∨ i = 1 := by omega
  · rfl
  · rfl

/-- A checksum that is wrong does not keep the bytes from the card. -/
theorem not_memcard_unchanged :
    ¬ ∀ (p : Port) (c : Mcd) (n checksum x y : UInt8) (l : List UInt8) (bs : List Sent),
      Ready p.sio .memcardWrite c → l.length = n.toNat →
      bs.map Sent.data = writePacket n l checksum x y → checksum ≠ l.foldl (· ^^^ ·) 0 →
      (p.sends bs).1.mc.m_file = p.mc.m_file := by
  intro h
  have hsame := h ⟨idle .memcardWrite, erased⟩ _ 2 0 0 0 [1, 2] (twoBytes 0) (ready_idle _) rfl
    (map_sent _) (by decide)
  have hcard : erased = ⟨some [0xFF, 0xFF, 0xFF, 0xFF], false, 0⟩ := rfl
  obtain ⟨file, chksum, hmc, hover⟩ := sends_writePackets (p := ⟨idle .memcardWrite, erased⟩)
    (writePackets_twoBytes 0) (ready_idle _) hcard (by decide) (by decide)
  rw [hmc] at hsame
  have hfile : file = [0xFF, 0xFF, 0xFF, 0xFF] := Option.some.inj hsame
  have hfirst := hover.bytes 0
  rw [hfile] at hfirst
  exact absurd hfirst (by decide)

end Erased

end Port

end OmegaRed.Sio
