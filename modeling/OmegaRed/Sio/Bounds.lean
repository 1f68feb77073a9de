import OmegaRed.Sio.Write

/-! Which calls stay in the buffer. -/

namespace OmegaRed.Sio

open State

/-- The call has stayed in the buffer so far, and the size of a packet leaves room for a byte
behind it. -/
def Ok (s : State) : Prop := s.bufSize.toNat ≤ 510 ∧ ∀ i, i ∈ s.touched → i < 512

section Ok

variable {s : State} {e : Env} {data : UInt8}

@[simp] theorem ok_put {i : Nat} {v : UInt8} : Ok (s.put i v) ↔ Ok s ∧ i < 512 := by
  simp only [Ok, put, List.forall_mem_append, List.forall_mem_singleton, and_assoc]

@[simp] theorem ok_peek {i n : Nat} : Ok (s.peek i n) ↔ Ok s ∧ ∀ k, k < n → i + k < 512 := by
  simp only [Ok, peek, List.forall_mem_append, List.forall_mem_map, List.mem_range, and_assoc]

@[simp] theorem ok_copy {i : Nat} {l : List UInt8} :
    Ok (s.copy i l) ↔ Ok s ∧ ∀ k, k < l.length → i + k < 512 := by
  simp only [Ok, copy, List.forall_mem_append, List.forall_mem_map, List.mem_range, and_assoc]

@[simp] theorem ok_fill {v : UInt8} : Ok (s.fill v) ↔ Ok s := by
  simp only [Ok, fill, List.forall_mem_append, List.mem_range, imp_self, implies_true, and_true]

@[simp] theorem ok_mode {m : Mode} : Ok { s with siomode := m } ↔ Ok s := Iff.rfl

@[simp] theorem ok_setCard {c : Mcd} : Ok (s.setCard c) ↔ Ok s := Iff.rfl

@[simp] theorem ok_statReady : Ok s.statReady ↔ Ok s := Iff.rfl

@[simp] theorem ok_statEmpty : Ok s.statEmpty ↔ Ok s := Iff.rfl

@[simp] theorem ok_devicePlugged : Ok s.devicePlugged ↔ Ok s := ok_fill

@[simp] theorem ok_deviceUnplugged : Ok s.deviceUnplugged ↔ Ok s := ok_fill

@[simp] theorem ok_interrupt : Ok (s.interrupt e) ↔ Ok s := by
  rw [interrupt]
  split <;> rfl

@[simp] theorem ok_received : Ok (received e s) ↔ Ok s := by
  rw [received, ok_interrupt]
  split <;> rfl

theorem ok_doXor {i : Nat} (length : Nat) (h : Ok s) (hi : i + 255 < 512) : Ok (s.doXor i length).1 := by
  rw [doXor]
  split
  · exact ok_peek.mpr ⟨h, fun k hk => by omega⟩
  · exact ok_peek.mpr ⟨h, fun k hk => by omega⟩

theorem ok_controller (h : Ok s) : Ok (sioWriteController e s) ↔ s.bufCount.toNat < 512 := by
  rw [sioWriteController, ok_interrupt]
  split
  · rename_i hzero
    simp [hzero, h]
  · simp [h]

theorem ok_multitap (h : Ok s) : Ok (sioWriteMultitap e data s) := by
  rw [sioWriteMultitap, ok_interrupt]
  split
  · split
    · simp [h]
    · change Ok (s.deviceUnplugged.put 0 0x00)
      simp [h]
  · have hcmd : Ok { s with siocmd := data } := h
    dsimp only
    split_ifs <;> simp [hcmd]
  · have hslot : Ok { s with slot := Function.update s.slot s.port data } := h
    dsimp only
    split_ifs <;> simp [hslot, h]
  · exact h

theorem ok_response (h : Ok s) : Ok (memcardResponse s) := by
  have hsize := h.1
  rw [memcardResponse]
  split
  · simp only [ok_put]
    exact ⟨⟨h, by omega⟩, by omega⟩
  · exact h

theorem ok_auth (h : Ok s) : Ok (memcardAuth data s) := by
  have hsize := h.1
  have hcheck : Ok { s with doXorCheck := true, xorResult := 0 } := h
  have hnone : Ok { s with doXorCheck := false } := h
  rw [memcardAuth]
  split
  · split
    · simp only [ok_put]
      exact ⟨⟨hcheck, by decide⟩, by omega⟩
    · exact ok_response hnone
  · split
    · split
      · exact h
      · exact ok_put.mpr ⟨h, by decide⟩
      · exact h
    · exact h

theorem ok_next (h : Ok s) : Ok (memcardNext data s) := by
  rw [memcardNext]
  split
  · exact h
  · exact h

theorem ok_header {x y z w : UInt8} (h : Ok s) : Ok (s.copy 0 [x, y, z, w]) :=
  ok_copy.mpr ⟨h, fun k hk => by
    simp only [List.length_cons, List.length_nil] at hk
    omega⟩

theorem Ok.setSize (h : Ok s) {n : Nat} (hn : n ≤ 510) : Ok { s with bufSize := .ofNat n } := by
  refine ⟨?_, h.2⟩
  rw [UInt16.toNat_ofNat', Nat.mod_eq_of_lt (by omega)]
  exact hn

theorem ok_erase (h : Ok s) : Ok (memcardErase e data s) := by
  rw [memcardErase]
  split
  · split
    · exact h
    · exact h
  · rw [ok_interrupt]
    split
    · exact (ok_header h).setSize (n := 3) (by decide)
    · exact h
  · exact ok_next h

theorem ok_memcardHeader {command : UInt8} {once : State → Bool} {setOnce : Bool → State → State}
    (hset : ∀ b t, Ok t → Ok (setOnce b t)) (h : Ok s) :
    Ok (memcardHeader e data s command once setOnce) := by
  rw [memcardHeader, ok_interrupt]
  split
  · exact hset _ _ (ok_header h)
  · split
    · exact hset _ _ ((ok_header h).setSize (n := 3) (by decide))
    · exact h

theorem ok_data (h : Ok s) : Ok (memcardData data s) := by
  have hpos := s.checksumPos.toNat_lt
  rw [memcardData]
  dsimp only
  generalize (if 4 ≤ s.bufCount.toNat then s.bufCount.toNat - 4
    else 2 ^ 32 + s.bufCount.toNat - 4) = length
  have hsum := ok_doXor length h (show 4 + 255 < 512 by decide)
  generalize s.doXor 4 length = summed at hsum ⊢
  have hsize := summed.1.writeSize.toNat_lt
  split_ifs
  · exact ok_put.mpr ⟨h, by omega⟩
  · exact hsum
  · simp only [ok_setCard, ok_peek, ok_put]
    exact ⟨⟨⟨hsum, fun k hk => by omega⟩, by omega⟩, fun k hk => by
      change k < summed.1.writeSize.toNat at hk
      omega⟩
  · exact h

theorem ok_write (h : Ok s) : Ok (memcardWrite e data s) := by
  have hdata := data.toNat_lt
  rw [memcardWrite]
  split
  · split
    · exact h
    · exact h
  · exact ok_memcardHeader (fun _ _ ht => ht) h
  · have hterm : Ok (s.put (data.toNat + 5) s.card.term) := ok_put.mpr ⟨h, by omega⟩
    exact hterm.setSize (by omega)
  · have hmid : Ok (memcardData data s) := ok_data h
    dsimp only
    split
    · exact hmid
    · exact ok_next hmid

theorem ok_read (h : Ok s) : Ok (memcardRead e data s) := by
  have hdata := data.toNat_lt
  rw [memcardRead]
  split
  · split
    · exact h
    · exact h
  · exact ok_memcardHeader (fun _ _ ht => ht) h
  · have hread : Ok (({ s with readSize := data } : State).copy 4
        ((List.range data.toNat).map e.cardData)) := by
      refine ok_copy.mpr ⟨h, fun k hk => ?_⟩
      rw [List.length_map, List.length_range] at hk
      omega
    dsimp only
    refine Ok.setSize (ok_put.mpr ⟨ok_put.mpr ⟨ok_doXor _ ?_ (by decide), by omega⟩, by omega⟩)
      (by omega)
    exact hread
  · exact ok_next h

theorem ok_sector (h : Ok s) : Ok (memcardSector data s) := by
  rw [memcardSector]
  dsimp only
  split
  all_goals first
    | exact h
    | exact (ok_fill (v := 0xFF)).mpr h

theorem ok_forcedEjection (h : Ok s) : Ok (forcedEjection e s) := by
  rw [forcedEjection]
  dsimp only
  split
  · exact h
  · exact h

theorem ok_init (h : Ok s) : Ok (memcardInit e s) := by
  have hmcd : Ok { s with mcd := (s.port, s.slot s.port) } := h
  rw [memcardInit]
  dsimp only
  split
  · exact ok_devicePlugged.mpr (ok_forcedEjection hmcd)
  · exact ok_deviceUnplugged.mpr (ok_forcedEjection hmcd)

theorem ok_memcard (h : Ok s) : Ok (sioWriteMemcard e data s) := by
  rw [sioWriteMemcard]
  split
  · rw [ok_interrupt]
    exact ok_init (ok_statReady.mpr h)
  · have hcmd : Ok { s with cmd := data } := h
    rw [ok_interrupt]
    dsimp only
    split_ifs
    · exact ok_response hcmd
    · refine ok_copy.mpr ⟨hcmd, fun k hk => ?_⟩
      simp at hk
      omega
    · exact hcmd
    · simp [hcmd]
    · exact hcmd
    · exact ok_response hcmd
    · exact hcmd
  · split
    · exact ok_response (ok_setCard.mpr h)
    · exact h
  · exact h

theorem ok_memcardPSXRead (h : Ok s) : Ok (memcardPSXRead e s) := by
  have hread : Ok (((((((s.peek 5 1).put 8 (s.buf 5)).peek 6 1).put 9
      (((s.peek 5 1).put 8 (s.buf 5)).buf 6)).put 6 0x5C).put 7 0x5D).copy 10
        ((List.range 0x80).map e.cardData)) := by
    refine ok_copy.mpr ⟨?_, fun k hk => ?_⟩
    · simp only [ok_put, ok_peek]
      exact ⟨⟨⟨⟨⟨⟨h, fun k hk => by omega⟩, by decide⟩, fun k hk => by omega⟩, by decide⟩,
        by decide⟩, by decide⟩
    · rw [List.length_map, List.length_range] at hk
      omega
  rw [memcardPSXRead]
  dsimp only
  have hsum := ok_doXor (0x80 + 2) hread (show 8 + 255 < 512 by decide)
  generalize State.doXor _ 8 (0x80 + 2) = summed at hsum ⊢
  exact ok_mode.mpr (ok_put.mpr ⟨ok_put.mpr ⟨hsum, by decide⟩, by decide⟩)

theorem ok_memcardPSXWrite (h : Ok s) : Ok (memcardPSXWrite data s) := by
  have hsum := ok_doXor (0x80 + 2) h (show 5 + 255 < 512 by decide)
  rw [memcardPSXWrite]
  generalize s.doXor 5 (0x80 + 2) = summed at hsum ⊢
  have hanswer (v : UInt8) : Ok (((summed.1.put 135 0x5C).put 136 0x5D).put 137 v) := by
    simp [hsum]
  dsimp only
  generalize (if data = summed.2 then (0x47 : UInt8) else 0x4E) = v
  rw [ok_mode]
  split
  · exact ok_put.mpr ⟨hanswer v, by decide⟩
  · exact ok_peek.mpr ⟨hanswer v, fun k hk => by omega⟩

theorem ok_memcardPSX (h : Ok s) : Ok (sioWriteMemcardPSX e data s) ↔ s.bufCount.toNat < 511 := by
  have hcmd : Ok { s with cmd := data } := h
  have hput (i : Nat) (hi : i < 512) : Ok (s.put i data) := ok_put.mpr ⟨h, hi⟩
  rw [sioWriteMemcardPSX]
  split
  · rw [ok_interrupt]
    exact iff_of_true (ok_init (ok_statReady.mpr h)) (by omega)
  · rw [ok_interrupt]
    refine iff_of_true ?_ (by omega)
    dsimp only
    split_ifs
    · refine ok_copy.mpr ⟨ok_put.mpr ⟨hcmd, by decide⟩, fun k hk => ?_⟩
      have hlen : memcardPsxMagic.length = 8 := rfl
      omega
    · simp [hcmd]
    · exact hcmd
  · exact iff_of_true h (by omega)
  · exact iff_of_true h (by omega)
  · exact iff_of_true (hput 5 (by decide)) (by omega)
  · exact iff_of_true (hput 6 (by decide)) (by omega)
  · refine iff_of_true ?_ (by omega)
    split
    · split
      · exact ok_mode.mpr (ok_fill.mpr h)
      · exact ok_memcardPSXRead h
    · exact hput (6 + 1) (by decide)
  · dsimp only
    split
    · exact iff_of_true (ok_memcardPSXWrite (hput _ (by omega))) (by omega)
    · rw [ok_put]
      exact ⟨fun hboth => by omega, fun hlt => ⟨h, by omega⟩⟩

theorem ok_infrared (h : Ok s) : Ok (sioWriteInfraRed e s) := by
  rw [sioWriteInfraRed, ok_interrupt]
  exact ok_devicePlugged.mpr (ok_statReady.mpr h)

/-- What a written byte has to find: the controllers' answer goes to `bufCount`, the data for a
card of the first console behind it. -/
def Fits (s : State) (data : UInt8) : Prop :=
  (s.siomode = .controller ∨ s.siomode = .start ∧ data = 0x01 → s.bufCount.toNat < 512) ∧
    (s.siomode = .memcardPSX → s.bufCount.toNat < 511)

theorem ok_ifHung {t : State} : Ok (if t.hung then t else received e t) ↔ Ok t := by
  split
  · rfl
  · exact ok_received

theorem ok_sioWriteMode (h : Ok s) (hstart : s.siomode ≠ .start) :
    Ok (sioWriteMode e data s) ↔ Fits s data := by
  rw [sioWriteMode, ok_ifHung, Fits]
  cases hmode : s.siomode with
  | start => exact absurd hmode hstart
  | controller => simpa using ok_controller h
  | multitap => simpa using ok_multitap h
  | infrared => simpa using ok_infrared h
  | memcard => simpa using ok_memcard h
  | memcardAuth => simpa using ok_auth h
  | memcardErase => simpa using ok_erase h
  | memcardWrite => simpa using ok_write h
  | memcardRead => simpa using ok_read h
  | memcardSector => simpa using ok_sector h
  | memcardPSX => simpa using ok_memcardPSX h
  | dummy => simpa using h

theorem ok_sioWriteStart (h : Ok s) (hstart : s.siomode = .start) :
    Ok (sioWriteStart e data s) ↔ Fits s data := by
  have hsize : Ok { s with bufSize := .ofNat (e.sendArray3.toNat / 2 ^ 18 % 2 ^ 9 - 1) } :=
    h.setSize (by omega)
  have hmode (m : Mode) (hm : m ≠ .start) :
      Ok (sioWriteMode e data { s with
        bufSize := .ofNat (e.sendArray3.toNat / 2 ^ 18 % 2 ^ 9 - 1), siomode := m }) ↔
        Fits { s with siomode := m } data := by
    refine ok_sioWriteMode ?_ hm
    exact (ok_mode (m := m)).mpr hsize
  rw [sioWriteStart, Fits]
  dsimp only
  split_ifs with h01 h21 h61 h81
  · exact (hmode .controller (by decide)).trans (by simp [Fits, hstart, h01])
  · exact (hmode .multitap (by decide)).trans (by simp [Fits, hstart, h21])
  · exact (hmode .infrared (by decide)).trans (by simp [Fits, hstart, h61])
  · exact (hmode .memcard (by decide)).trans (by simp [Fits, hstart, h81])
  · refine (ok_sioWriteMode (ok_mode.mpr (ok_deviceUnplugged.mpr hsize)) (by simp)).trans ?_
    simp [Fits, hstart, h01]

theorem ok_sioWrite8 (h : Ok s) : Ok (sioWrite8 e data s) ↔ Fits s data := by
  rw [sioWrite8]
  split
  · rename_i hstart
    exact ok_ifHung.trans (ok_sioWriteStart h hstart)
  · rename_i hmode
    exact ok_sioWriteMode h hmode

theorem ok_sioRead8 (h : Ok s) :
    Ok (sioRead8 s).1 ↔ (s.statReg &&& rxRdy ≠ 0 → s.bufCount.toNat < 512) := by
  rw [sioRead8]
  split
  · rename_i hready
    have hpeek : Ok (s.peek s.bufCount.toNat 1) ↔ s.bufCount.toNat < 512 := by
      rw [ok_peek]
      exact ⟨fun hboth => hboth.2 0 Nat.one_pos, fun hlt => ⟨h, fun k hk => by omega⟩⟩
    refine Iff.trans ?_ (forall_prop_of_true hready).symm
    dsimp only
    split
    · exact hpeek
    · exact hpeek
  · rename_i hready
    exact iff_of_true h fun hready' => absurd hready' hready

theorem ok_sioWriteCtrl16 (h : Ok s) (value : UInt16) : Ok (sioWriteCtrl16 s value) := by
  rw [sioWriteCtrl16]
  dsimp only
  split_ifs
  all_goals exact h

end Ok

/-- What a call has to find to stay in the buffer. -/
def InBuffer (s : State) : Op → Prop
  | .write8 _ data => Fits s data
  | .read8 => s.statReg &&& rxRdy ≠ 0 → s.bufCount.toNat < 512
  | .writeCtrl16 _ => True

theorem ok_step {s : State} {op : Op} (h : s.bufSize.toNat ≤ 510) (hop : InBuffer s op) :
    Ok (step s op) := by
  have hnew : Ok { s with touched := [] } := ⟨h, fun i hi => absurd hi List.not_mem_nil⟩
  unfold step
  dsimp only
  split
  · exact hnew
  · cases op with
    | write8 e data => exact (ok_sioWrite8 hnew).mpr hop
    | read8 => exact (ok_sioRead8 hnew).mpr hop
    | writeCtrl16 value => exact ok_sioWriteCtrl16 hnew value

/-- Every call of the run stays in the buffer. -/
def InRange (s : State) : List Op → Prop
  | [] => True
  | op :: ops => (∀ i, i ∈ (step s op).touched → i < 512) ∧ InRange (step s op) ops

def Fitting (s : State) : List Op → Prop
  | [] => True
  | op :: ops => InBuffer s op ∧ Fitting (step s op) ops

section Card

/-- A card is in the slot. -/
def cardEnv : Env :=
  ⟨0x02443200, 0xFF, 0, false, true, false, false, fun _ => 0xFF, Vector.replicate 8 0, 0, false⟩

def blank : State :=
  ⟨0, 0, fun _ => 0, 0, 0, 0, 0, 0, fun _ => 0, .start, fun _ => ⟨0, false, 0, 0, 0, 0⟩, (0, 0), 0,
    false, 0, 0, 0, false, 0, false, 0, fun _ => 0, [], false⟩

/-- Bytes go out and answers come in. -/
def exchange (l : List UInt8) : List Op := l.flatMap fun data => [.write8 cardEnv data, .read8]

end Card

end OmegaRed.Sio
