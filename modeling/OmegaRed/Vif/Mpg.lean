import OmegaRed.Lib.Pieces
import OmegaRed.MTVU.Ring
import OmegaRed.Lib.RingFifo
import Mathlib.Combinatorics.Enumerative.Composition

/-! `MPG`: a microprogram goes to micro memory, in as many packets as it comes in. -/

namespace OmegaRed.Vif

open Lib.Memory Lib.Words Lib.Blocks

def vuMemSize (idx : Bool) : Nat := if idx then 0x4000 else 0x1000

def wordBytes (words : List UInt32) : List UInt8 := words.flatMap bytes

@[simp] theorem length_wordBytes (words : List UInt32) :
    (wordBytes words).length = 4 * words.length := by
  rw [wordBytes, List.flatMap_def, length_flatten (n := 4), List.length_map,
    Nat.mul_comm]
  intro l hl
  obtain ⟨x, -, rfl⟩ := List.mem_map.mp hl
  exact length_bytes x

theorem wordBytes_append (words words' : List UInt32) :
    wordBytes (words ++ words') = wordBytes words ++ wordBytes words' :=
  List.flatMap_append

/-- What `MPG` keeps between packets: `tag.addr`, `tag.size`, micro memory and what is behind it,
and what has been queued for the VU thread. -/
structure Mpg where
  addr : Nat
  size : Nat
  micro : Nat → UInt8
  queue : List MTVU.Command

/-- `tag.addr` from the VIFcode. -/
def mpgAddr (idx : Bool) (code : UInt32) : Nat :=
  (code.toNat * 8 % 2 ^ 16) % vuMemSize idx

/-- `tag.size` from the `NUM` of the VIFcode. -/
def mpgSize (code : UInt32) : Nat :=
  let vifNum := code.toNat / 2 ^ 16 % 2 ^ 8
  if vifNum ≠ 0 then vifNum * 2 else 512

namespace Mpg

/-- The first pass of `vifCode_MPG`, when it does not stall. -/
def start (idx : Bool) (code : UInt32) (micro : Nat → UInt8) : Mpg :=
  ⟨mpgAddr idx code, mpgSize code, micro, []⟩

/-- `_vifCode_MPG`; a queued block has fewer bytes than a `u32` counts. -/
def upload (idx mtvu : Bool) (s : Mpg) (data : List UInt32) : Mpg :=
  let src := wordBytes data
  let size := data.length
  if idx && mtvu then
    if h : src.length + 3 < 2 ^ 32 then
      { s with queue := s.queue ++ [.writeMicroMem (.ofNat s.addr) ⟨src, h⟩] }
    else s
  else if s.addr + size * 4 > vuMemSize idx then
    let micro := store s.micro s.addr (src.take (vuMemSize idx - s.addr))
    let size := size - (vuMemSize idx - s.addr) / 4
    { s with micro := store micro 0 (src.take size), addr := size * 4 }
  else { s with micro := store s.micro s.addr src, addr := s.addr + size * 4 }

/-- The second pass of `vifCode_MPG`, on a packet. -/
def transfer (idx mtvu : Bool) (s : Mpg) (packet : List UInt32) : Mpg :=
  if packet.length < s.size then
    let s := s.upload idx mtvu packet
    { s with size := s.size - packet.length }
  else
    let s := s.upload idx mtvu (packet.take s.size)
    { s with size := 0 }

def run (idx mtvu : Bool) (s : Mpg) (packets : List (List UInt32)) : Mpg :=
  packets.foldl (transfer idx mtvu) s

end Mpg

/-- What the VU thread makes of a command, as far as micro memory goes. -/
def execMicro (micro : Nat → UInt8) : MTVU.Command → Nat → UInt8
  | .writeMicroMem vuMicroAddr data => store micro vuMicroAddr.toNat data.data
  | _ => micro

/-- Micro memory when the VU thread has drained its ring. -/
def Mpg.drained (s : Mpg) : Nat → UInt8 := s.queue.foldl execMicro s.micro

/-- What is asked of an upload in these packets: each word is at its place, nothing else has
changed, and between packets `tag.addr` is the place of the next word. -/
structure Stored (idx mtvu : Bool) (code : UInt32) (micro : Nat → UInt8)
    (packets : List (List UInt32)) : Prop where
  word : ∀ i x, packets.flatten[i]? = some x →
    load ((Mpg.start idx code micro).run idx mtvu packets).drained
      ((mpgAddr idx code + 4 * i) % vuMemSize idx) 4 = bytes x
  other : ∀ a, (∀ i k, i < packets.flatten.length → k < 4 →
      a ≠ (mpgAddr idx code + 4 * i) % vuMemSize idx + k) →
    ((Mpg.start idx code micro).run idx mtvu packets).drained a = micro a
  next : ∀ done rest, packets = done ++ rest → rest ≠ [] →
    ((Mpg.start idx code micro).run idx mtvu done).addr =
      (mpgAddr idx code + 4 * done.flatten.length) % vuMemSize idx

end OmegaRed.Vif

/-! Which uploads store every word at its place. -/

namespace OmegaRed.Vif

open Lib.Memory Lib.Words Lib.Blocks

theorem load_store_wordBytes {words : List UInt32} {i : Nat} {x : UInt32}
    (h : words[i]? = some x) (micro : Nat → UInt8) (addr : Nat) :
    load (store micro addr (wordBytes words)) (addr + 4 * i) 4 = bytes x := by
  have hi := (List.getElem?_eq_some_iff.mp h).1
  have hfour : ∀ l, l ∈ words.map bytes → l.length = 4 := by
    intro l hl
    obtain ⟨y, -, rfl⟩ := List.mem_map.mp hl
    exact length_bytes y
  have hblock : (words.map bytes)[i]? = some (bytes x) := by
    rw [List.getElem?_map, h]
    rfl
  have hslice := slice_flatten hfour hblock (o := 0) (b := 4) (by omega)
  have hload := load_store_self micro addr (wordBytes words)
  rw [length_wordBytes] at hload
  rw [← take_drop_load (n := 4 * words.length) _ _ (by omega), hload, Nat.mul_comm]
  rw [Nat.add_zero, List.drop_zero] at hslice
  rw [wordBytes, List.flatMap_def, hslice]
  exact List.take_of_length_le (Nat.le_refl 4)

theorem mpgAddr_lt (idx : Bool) (code : UInt32) : mpgAddr idx code < vuMemSize idx :=
  Nat.mod_lt _ (by cases idx <;> decide)

theorem mpgSize_le (code : UInt32) : mpgSize code ≤ 512 := by
  rw [mpgSize]
  split <;> omega

theorem mpgSize_ge (code : UInt32) : 2 ≤ mpgSize code := by
  rw [mpgSize]
  split <;> omega

theorem vuMemSize_ge (idx : Bool) : 4096 ≤ vuMemSize idx ∧ vuMemSize idx ≤ 16384 := by
  cases idx <;> decide

namespace Mpg

variable {idx mtvu : Bool} {s : Mpg} {packet : List UInt32} {packets : List (List UInt32)}

theorem transfer_eq (h : packet.length ≤ s.size) :
    s.transfer idx mtvu packet =
      { s.upload idx mtvu packet with size := s.size - packet.length } := by
  have hsize : (s.upload idx mtvu packet).size = s.size := by
    rw [upload]
    dsimp only
    split
    · split <;> rfl
    · split <;> rfl
  rw [transfer]
  split
  · dsimp only
    rw [hsize]
  · have hlen : packet.length = s.size := by omega
    rw [← hlen, List.take_length, Nat.sub_self]

theorem upload_fits (hq : (idx && mtvu) = false)
    (hfit : s.addr + 4 * packet.length ≤ vuMemSize idx) :
    s.upload idx mtvu packet = { s with
      micro := store s.micro s.addr (wordBytes packet), addr := s.addr + 4 * packet.length } := by
  rw [upload, hq]
  simp only [Bool.false_eq_true, if_false]
  rw [if_neg (by omega), Nat.mul_comm]

theorem upload_wraps (hq : (idx && mtvu) = false)
    (hwrap : vuMemSize idx < s.addr + 4 * packet.length) :
    s.upload idx mtvu packet = { s with
      micro := store (store s.micro s.addr ((wordBytes packet).take (vuMemSize idx - s.addr))) 0
        ((wordBytes packet).take (packet.length - (vuMemSize idx - s.addr) / 4)),
      addr := (packet.length - (vuMemSize idx - s.addr) / 4) * 4 } := by
  rw [upload, hq]
  simp only [Bool.false_eq_true, if_false]
  rw [if_pos (by omega)]

theorem run_fits (hq : (idx && mtvu) = false) (hsize : packets.flatten.length ≤ s.size)
    (hfit : s.addr + 4 * packets.flatten.length ≤ vuMemSize idx) :
    s.run idx mtvu packets = { s with
      micro := store s.micro s.addr (wordBytes packets.flatten)
      addr := s.addr + 4 * packets.flatten.length
      size := s.size - packets.flatten.length } := by
  induction packets generalizing s with
  | nil => simp [run, wordBytes]
  | cons packet packets ih =>
    rw [List.flatten_cons, List.length_append] at hsize hfit ⊢
    rw [run, List.foldl_cons, transfer_eq (by omega), upload_fits hq (by omega)]
    change run idx mtvu _ packets = _
    rw [ih (by dsimp only; omega) (by dsimp only; omega)]
    dsimp only
    have hlen : s.addr + 4 * packet.length = s.addr + (wordBytes packet).length := by
      rw [length_wordBytes]
    rw [hlen, store_append, ← wordBytes_append, length_wordBytes, Nat.add_assoc,
      ← Nat.mul_add, Nat.sub_sub]

/-- A packet that passes the end of memory leaves the last byte of its last word unwritten, and
so do the packets behind it. -/
theorem run_wraps (hq : (idx && mtvu) = false) (hsize : packets.flatten.length ≤ s.size)
    (hsmall : packets.flatten.length ≤ 512) (hlow : 2048 ≤ s.addr) (hle : s.addr ≤ vuMemSize idx)
    (hdvd : 4 ∣ s.addr) (hwrap : vuMemSize idx < s.addr + 4 * packets.flatten.length) :
    ∃ r, 0 < r ∧ vuMemSize idx + 4 * r ≤ s.addr + 4 * packets.flatten.length ∧
      (s.run idx mtvu packets).micro (4 * r - 1) = s.micro (4 * r - 1) := by
  induction packets generalizing s with
  | nil => simp at hwrap; omega
  | cons packet packets ih =>
    rw [List.flatten_cons, List.length_append] at hsize hsmall hwrap ⊢
    rw [run, List.foldl_cons, transfer_eq (by omega)]
    change ∃ r, _ ∧ _ ∧ (run idx mtvu _ packets).micro _ = _
    by_cases hfit : s.addr + 4 * packet.length ≤ vuMemSize idx
    · rw [upload_fits hq hfit]
      obtain ⟨r, hpos, hr, hmicro⟩ := ih (s := { s with
        micro := store s.micro s.addr (wordBytes packet), addr := s.addr + 4 * packet.length
        size := s.size - packet.length }) (by dsimp only; omega) (by omega) (by dsimp only; omega)
        hfit (Nat.dvd_add hdvd (Nat.dvd_mul_right 4 _)) (by dsimp only; omega)
      refine ⟨r, hpos, by dsimp only at hr; omega, hmicro.trans ?_⟩
      dsimp only at hr ⊢
      have := vuMemSize_ge idx
      exact store_of_lt _ _ (by omega)
    · have hmem : 4 ∣ vuMemSize idx := by cases idx <;> decide
      have hge := vuMemSize_ge idx
      obtain ⟨n, hn⟩ := Nat.dvd_sub hmem hdvd
      have hdiv : (vuMemSize idx - s.addr) / 4 = n := by omega
      rw [upload_wraps hq (by omega), hdiv, run_fits hq (by dsimp only; omega)
        (by dsimp only; omega)]
      refine ⟨packet.length - n, by omega, by omega, ?_⟩
      dsimp only
      rw [store_of_lt _ _ (by omega), store_of_ge _ _ (by rw [List.length_take]; omega),
        store_of_lt _ _ (by omega)]

theorem drained_of_not_queued (hq : (idx && mtvu) = false) (hqueue : s.queue = []) :
    (s.run idx mtvu packets).drained = (s.run idx mtvu packets).micro := by
  have hrun : (s.run idx mtvu packets).queue = [] := by
    induction packets generalizing s with
    | nil => exact hqueue
    | cons packet packets ih =>
      have hupload (data : List UInt32) : (s.upload idx mtvu data).queue = [] := by
        rw [upload, hq]
        simp only [Bool.false_eq_true, if_false]
        split <;> exact hqueue
      rw [run, List.foldl_cons]
      refine ih ?_
      rw [transfer]
      split
      · exact hupload _
      · exact hupload _
  rw [drained, hrun]
  rfl

theorem run_queued (hq : (idx && mtvu) = true) : (s.run idx mtvu packets).addr = s.addr := by
  induction packets generalizing s with
  | nil => rfl
  | cons packet packets ih =>
    have hupload (data : List UInt32) : (s.upload idx mtvu data).addr = s.addr := by
      rw [upload, if_pos hq]
      split <;> rfl
    rw [run, List.foldl_cons]
    refine (ih (s := s.transfer idx mtvu packet)).trans ?_
    rw [transfer]
    split
    · exact hupload _
    · exact hupload _

theorem drained_single (hq : (idx && mtvu) = true) (hsize : packet.length ≤ s.size)
    (hsmall : packet.length ≤ 512) (haddr : s.addr < 2 ^ 32) (hqueue : s.queue = []) :
    (s.run idx mtvu [packet]).drained = store s.micro s.addr (wordBytes packet) := by
  have hlen : (wordBytes packet).length + 3 < 2 ^ 32 := by
    rw [length_wordBytes]
    omega
  rw [run, List.foldl_cons, List.foldl_nil, transfer_eq hsize, upload, if_pos hq, dif_pos hlen,
    drained, hqueue, List.nil_append, List.foldl_cons, List.foldl_nil, execMicro,
    UInt32.toNat_ofNat', Nat.mod_eq_of_lt haddr]

end Mpg

section Stored

variable {idx mtvu : Bool} {code : UInt32} {micro : Nat → UInt8} {packets : List (List UInt32)}

/-- Words that are all copied to where they begin are stored, if they do not pass the end. -/
theorem stored_of_drained
    (hfit : mpgAddr idx code + 4 * packets.flatten.length ≤ vuMemSize idx)
    (hdrained : ((Mpg.start idx code micro).run idx mtvu packets).drained =
      store micro (mpgAddr idx code) (wordBytes packets.flatten))
    (hnext : ∀ done rest, packets = done ++ rest → rest ≠ [] →
      ((Mpg.start idx code micro).run idx mtvu done).addr =
        (mpgAddr idx code + 4 * done.flatten.length) % vuMemSize idx) :
    Stored idx mtvu code micro packets := by
  refine ⟨fun i x hx => ?_, fun a ha => ?_, hnext⟩
  · have hi := (List.getElem?_eq_some_iff.mp hx).1
    rw [hdrained, Nat.mod_eq_of_lt (by omega)]
    exact load_store_wordBytes hx _ _
  · rw [hdrained]
    by_cases hlt : a < mpgAddr idx code
    · exact store_of_lt _ _ hlt
    · refine store_of_ge _ _ ?_
      rw [length_wordBytes]
      by_contra hin
      refine ha ((a - mpgAddr idx code) / 4) ((a - mpgAddr idx code) % 4) (by omega) (by omega) ?_
      rw [Nat.mod_eq_of_lt (by omega)]
      omega

theorem Stored.ones (h : Stored idx mtvu code micro packets)
    (hones : ∀ x, x ∈ packets.flatten → x = 0xffffffff) {i : Nat}
    (hi : i < packets.flatten.length) :
    ((Mpg.start idx code micro).run idx mtvu packets).drained
      ((mpgAddr idx code + 4 * i) % vuMemSize idx + 3) = 0xff := by
  have hx := List.getElem?_eq_getElem hi
  have hword := h.word i _ hx
  rw [hones _ (List.getElem_mem hi)] at hword
  have hbyte := getElem?_load ((Mpg.start idx code micro).run idx mtvu packets).drained
    (a := (mpgAddr idx code + 4 * i) % vuMemSize idx) (n := 4) (i := 3) (by omega)
  rw [hword] at hbyte
  exact (Option.some.inj hbyte).symm

theorem mpgAddr_dvd (idx : Bool) (code : UInt32) : 4 ∣ mpgAddr idx code := by
  have hmem : 4 ∣ vuMemSize idx := by cases idx <;> decide
  exact (Nat.dvd_mod_iff hmem).mpr (by omega)

/-- Packets of ones with given lengths. -/
def ones (cut : List Nat) : List (List UInt32) := cut.map (List.replicate · 0xffffffff)

theorem map_length_ones (cut : List Nat) : (ones cut).map List.length = cut := by
  simp [ones, Function.comp_def]

theorem eq_of_mem_ones {cut : List Nat} {x : UInt32} (h : x ∈ (ones cut).flatten) :
    x = 0xffffffff := by
  obtain ⟨l, hl, hx⟩ := List.mem_flatten.mp h
  obtain ⟨n, -, rfl⟩ := List.mem_map.mp hl
  exact List.eq_of_mem_replicate hx

theorem not_stored_of_wrap {cut : List Nat} (hsum : cut.sum = mpgSize code)
    (hwrap : vuMemSize idx < mpgAddr idx code + 4 * mpgSize code)
    (hsingle : (idx && mtvu) = true → cut.length = 1) :
    ¬ Stored idx mtvu code (fun _ => 0) (ones cut) := by
  intro h
  have hlen : (ones cut).flatten.length = mpgSize code := by
    rw [List.length_flatten, map_length_ones, hsum]
  have hsize := mpgSize_le code
  have hmem := vuMemSize_ge idx
  have haddr := mpgAddr_lt idx code
  have hdvd := mpgAddr_dvd idx code
  have hmemdvd : 4 ∣ vuMemSize idx := by cases idx <;> decide
  -- a byte that stays zero though a word of ones ends there
  obtain ⟨r, hpos, hr, hzero⟩ : ∃ r, 0 < r ∧
      vuMemSize idx + 4 * r ≤ mpgAddr idx code + 4 * mpgSize code ∧
      ((Mpg.start idx code fun _ => 0).run idx mtvu (ones cut)).drained (4 * r - 1) = 0 := by
    cases hq : (idx && mtvu) with
    | true =>
      obtain ⟨n, rfl⟩ := List.length_eq_one_iff.mp (hsingle hq)
      have hn : n = mpgSize code := by rw [← hsum, List.sum_singleton]
      refine ⟨1, Nat.one_pos, by omega, ?_⟩
      rw [ones, List.map_singleton, Mpg.drained_single hq (by simp [Mpg.start, hn])
        (by simp [hn, hsize]) (by simp only [Mpg.start]; omega) rfl]
      exact store_of_lt _ _ (by simp only [Mpg.start]; omega)
    | false =>
      have hstart : (ones cut).flatten.length ≤ (Mpg.start idx code fun _ => 0).size :=
        le_of_eq hlen
      obtain ⟨r, hpos, hr, hmicro⟩ := Mpg.run_wraps hq hstart (by omega)
        (by simp only [Mpg.start]; omega) (by simp only [Mpg.start]; omega) hdvd
        (by simp only [Mpg.start]; omega)
      refine ⟨r, hpos, by simp only [Mpg.start] at hr; omega, ?_⟩
      rw [Mpg.drained_of_not_queued hq rfl]
      exact hmicro
  have hone := h.ones (fun x => eq_of_mem_ones)
    (i := (vuMemSize idx + 4 * r - 4 - mpgAddr idx code) / 4) (by omega)
  have hplace : mpgAddr idx code + 4 * ((vuMemSize idx + 4 * r - 4 - mpgAddr idx code) / 4) =
      4 * (r - 1) + vuMemSize idx := by omega
  have hbyte : 4 * (r - 1) + 3 = 4 * r - 1 := by omega
  rw [hplace, Nat.add_mod_right, Nat.mod_eq_of_lt (by omega), hbyte, hzero] at hone
  exact absurd hone (by decide)

theorem not_stored_of_queued {cut : List Nat} (hsum : cut.sum = mpgSize code)
    (hcut : ∀ n, n ∈ cut → 0 < n) (hq : (idx && mtvu) = true) (hlen : cut.length ≠ 1) :
    ¬ Stored idx mtvu code micro (ones cut) := by
  intro h
  have hsize := mpgSize_le code
  have hge := mpgSize_ge code
  have hmem := vuMemSize_ge idx
  match cut, hsum, hcut, hlen with
  | [], hsum, _, _ => rw [List.sum_nil] at hsum; omega
  | [n], _, _, hlen => exact hlen rfl
  | n :: n' :: cut, hsum, hcut, _ =>
    have hnext := h.next [List.replicate n 0xffffffff] (ones (n' :: cut)) rfl (List.cons_ne_nil _ _)
    have hpos := hcut n List.mem_cons_self
    have hle : n ≤ mpgSize code := by
      rw [← hsum, List.sum_cons]
      omega
    rw [Mpg.run_queued hq, List.flatten_singleton, List.length_replicate] at hnext
    have hsame : mpgAddr idx code % vuMemSize idx =
        (mpgAddr idx code + 4 * n) % vuMemSize idx :=
      (Nat.mod_eq_of_lt (mpgAddr_lt idx code)).trans hnext
    exact Lib.Cyclic.mod_ne_mod (by omega) (by omega) hsame

end Stored

/-- Every upload stores its words at their places exactly when it does not pass the end of
memory, and, when it is queued for the VU thread, comes in one packet. -/
theorem stored_iff (idx mtvu : Bool) (code : UInt32) (cut : Composition (mpgSize code)) :
    (∀ micro packets, packets.map List.length = cut.blocks →
      Stored idx mtvu code micro packets) ↔
    mpgAddr idx code + 4 * mpgSize code ≤ vuMemSize idx ∧
      ((idx && mtvu) = true → cut.length = 1) := by
  constructor
  · intro hall
    have hones := hall (fun _ => 0) (ones cut.blocks) (map_length_ones _)
    have hsingle : (idx && mtvu) = true → cut.length = 1 := fun hq => by
      by_contra hlen
      exact not_stored_of_queued cut.blocks_sum (fun _ => cut.blocks_pos) hq hlen hones
    refine ⟨?_, hsingle⟩
    by_contra hwrap
    exact not_stored_of_wrap cut.blocks_sum (by omega) hsingle hones
  · rintro ⟨hfit, hsingle⟩ micro packets hpackets
    have hlen : packets.flatten.length = mpgSize code := by
      rw [List.length_flatten, hpackets, cut.blocks_sum]
    cases hq : (idx && mtvu) with
    | true =>
      obtain ⟨packet, rfl⟩ : ∃ packet, packets = [packet] := by
        have hcount : packets.length = cut.length := by
          rw [← List.length_map List.length, hpackets]
        exact List.length_eq_one_iff.mp (hcount.trans (hsingle hq))
      rw [List.flatten_singleton] at hlen
      have hsize := mpgSize_le code
      have haddr := mpgAddr_lt idx code
      have hmem := vuMemSize_ge idx
      refine stored_of_drained (by rw [List.flatten_singleton]; omega) ?_ ?_
      · rw [List.flatten_singleton]
        exact Mpg.drained_single hq (le_of_eq hlen) (by omega)
          (by simp only [Mpg.start]; omega) rfl
      · intro done rest hsplit hrest
        obtain ⟨rfl, -⟩ | ⟨-, rfl⟩ := List.append_eq_singleton_iff.mp hsplit.symm
        · exact (Nat.mod_eq_of_lt haddr).symm
        · exact absurd rfl hrest
    | false =>
      refine stored_of_drained (by omega) ?_ ?_
      · rw [Mpg.drained_of_not_queued hq rfl, Mpg.run_fits hq (le_of_eq hlen)
          (by simp only [Mpg.start]; omega)]
        rfl
      · intro done rest hsplit hrest
        have hdone : done.flatten.length < mpgSize code := by
          obtain ⟨packet, rest, rfl⟩ := List.exists_cons_of_ne_nil hrest
          have hpos : 0 < packet.length := by
            refine cut.blocks_pos ?_
            rw [← hpackets, hsplit]
            exact List.mem_map_of_mem (by simp)
          rw [hsplit, List.flatten_append, List.flatten_cons, List.length_append,
            List.length_append] at hlen
          omega
        rw [Mpg.run_fits hq (le_of_lt hdone) (by simp only [Mpg.start]; omega),
          Nat.mod_eq_of_lt (by omega)]
        rfl

/-- Two words behind the end of VU1's memory: they belong at its start. -/
theorem not_stored_wrapping :
    ¬ Stored true false 0x4a0207ff (fun _ => 0) (ones [4]) :=
  not_stored_of_wrap rfl (by decide) (fun h => absurd h (by decide))

end OmegaRed.Vif
