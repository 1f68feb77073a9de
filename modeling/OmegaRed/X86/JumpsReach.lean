import OmegaRed.X86.Jumps
import OmegaRed.X86.SibMagic

/-! Where the jumps of the emitter lead, and what of it all is right. -/

namespace OmegaRed.X86

open Lib.ModRm

variable {mem : Memory} {a b p : BitVec 32} {bytes code : List u8} {cc : JccComparisonType}

theorem offset_sub {c k : Nat} (hc : c ≤ 2 ^ 32) (hk : k < 2 ^ 32) :
    (b + BitVec.ofNat 32 k - (b + BitVec.ofNat 32 c)).toNat =
      if c ≤ k then k - c else 2 ^ 32 + k - c := by
  have hb := b.isLt
  simp only [BitVec.toNat_sub, BitVec.toNat_add, BitVec.toNat_ofNat]
  split <;> omega

theorem add_offset (c k : Nat) :
    b + BitVec.ofNat 32 c + BitVec.ofNat 32 k = b + BitVec.ofNat 32 (c + k) := by
  rw [BitVec.add_assoc, ← BitVec.ofNat_add]

theorem patch_in {c k : Nat} (hc : c + bytes.length ≤ 2 ^ 32) (hk : k < bytes.length) :
    patch mem (b + BitVec.ofNat 32 c) bytes (b + BitVec.ofNat 32 (c + k)) = bytes[k] := by
  have hoffset : (b + BitVec.ofNat 32 (c + k) - (b + BitVec.ofNat 32 c)).toNat = k := by
    rw [offset_sub (by omega) (by omega), if_pos (Nat.le_add_right c k), Nat.add_sub_cancel_left]
  rw [patch, dif_pos (hoffset.symm ▸ hk)]
  simp only [hoffset, List.get_eq_getElem]

theorem patch_out {c k : Nat} (hc : c + bytes.length ≤ 2 ^ 32) (hk : k < 2 ^ 32)
    (hout : k < c ∨ c + bytes.length ≤ k) :
    patch mem (b + BitVec.ofNat 32 c) bytes (b + BitVec.ofNat 32 k) =
      mem (b + BitVec.ofNat 32 k) := by
  have hoffset := offset_sub (b := b) (c := c) (k := k) (by omega) hk
  rw [patch, dif_neg]
  rw [hoffset]
  split <;> omega

theorem holds_offset {c : Nat} : Holds mem (b + BitVec.ofNat 32 c) bytes ↔
    ∀ k (hk : k < bytes.length), mem (b + BitVec.ofNat 32 (c + k)) = bytes[k] := by
  simp only [Holds, add_offset]

theorem holds_patch {c : Nat} (hc : c + bytes.length ≤ 2 ^ 32) :
    Holds (patch mem (b + BitVec.ofNat 32 c) bytes) (b + BitVec.ofNat 32 c) bytes :=
  holds_offset.2 fun _ hk => patch_in hc hk

theorem add_zero_offset : b + BitVec.ofNat 32 0 = b := by simp

theorem holds_write (h : bytes.length ≤ 2 ^ 32) : Holds (patch mem b bytes) b bytes := by
  simpa only [add_zero_offset] using holds_patch (b := b) (c := 0) (by omega)

theorem Holds.patch {c c' : Nat} (h : Holds mem (b + BitVec.ofNat 32 c') code) (bytes : List u8)
    (hc : c + bytes.length ≤ 2 ^ 32) (hc' : c' + code.length ≤ 2 ^ 32)
    (hout : c' + code.length ≤ c ∨ c + bytes.length ≤ c') :
    Holds (patch mem (b + BitVec.ofNat 32 c) bytes) (b + BitVec.ofNat 32 c') code := by
  refine holds_offset.2 fun k hk => ?_
  rw [patch_out hc (by omega) (by omega)]
  exact holds_offset.1 h k hk

theorem holds_append {c : Nat} {bytes' : List u8} :
    Holds mem (b + BitVec.ofNat 32 c) (bytes ++ bytes') ↔
      Holds mem (b + BitVec.ofNat 32 c) bytes ∧
        Holds mem (b + BitVec.ofNat 32 (c + bytes.length)) bytes' := by
  simp only [holds_offset]
  refine ⟨fun h => ⟨fun k hk => ?_, fun k hk => ?_⟩, fun h k hk => ?_⟩
  · rw [h k (by rw [List.length_append]; omega), List.getElem_append_left hk]
  · rw [Nat.add_assoc, h (bytes.length + k) (by rw [List.length_append]; omega)]
    simp
  · by_cases hlt : k < bytes.length
    · rw [h.1 k hlt, List.getElem_append_left hlt]
    · rw [List.length_append] at hk
      have hget := h.2 (k - bytes.length) (by omega)
      rw [show c + bytes.length + (k - bytes.length) = c + k by omega] at hget
      rw [hget, List.getElem_append_right (by omega)]

theorem word_eq {d : s32} (h : Holds mem a (bytes32 d)) : word mem a = d := by
  have hbytes := decodeDisp32_bytes32 d []
  have h0 := h 0 (by simp [bytes32])
  have h1 := h 1 (by simp [bytes32])
  have h2 := h 2 (by simp [bytes32])
  have h3 := h 3 (by simp [bytes32])
  rw [show a + BitVec.ofNat 32 0 = a by simp] at h0
  simp only [bytes32, List.cons_append, List.nil_append, decodeDisp32, Option.some.injEq,
    Prod.mk.injEq, and_true] at hbytes
  rw [word, h0, show mem (a + 1) = _ from h1, show mem (a + 2) = _ from h2,
    show mem (a + 3) = _ from h3]
  exact hbytes

theorem opcode8_spec : ∀ c : Fin 16, opcode8 (some c) ≠ 0xeb ∧ opcode8 (some c) ≠ 0xe9 ∧
    (opcode8 (some c)).toNat / 16 = 7 ∧ Fin.ofNat 16 (opcode8 (some c)).toNat = c := by
  decide

theorem opcode32_spec : ∀ c : Fin 16, (0x80#8 ||| BitVec.ofNat 8 c).toNat / 16 = 8 ∧
    Fin.ofNat 16 (0x80#8 ||| BitVec.ofNat 8 c).toNat = c := by
  decide

theorem decode_short {d : u8} (h0 : mem a = opcode8 cc) (h1 : mem (a + 1) = d) :
    decodeJump mem a = some (cc, a + 2 + d.signExtend 32, a + 2) := by
  unfold decodeJump
  rw [h0, h1]
  cases cc with
  | none => rfl
  | some c =>
    obtain ⟨hshort, hlong, hhigh, hcc⟩ := opcode8_spec c
    dsimp only
    rw [if_neg hshort, if_neg hlong, if_pos hhigh, hcc]

theorem length_opcode32 (cc : JccComparisonType) :
    (opcode32 cc).length + 4 = Emitter.GetMaxInstructionSize cc := by
  cases cc <;> rfl

theorem max_le (cc : JccComparisonType) : Emitter.GetMaxInstructionSize cc ≤ 6 := by
  unfold Emitter.GetMaxInstructionSize
  split <;> decide

theorem le_max (cc : JccComparisonType) : 5 ≤ Emitter.GetMaxInstructionSize cc := by
  unfold Emitter.GetMaxInstructionSize
  split <;> decide

theorem decode_long {d : s32} (h : Holds mem a (opcode32 cc ++ bytes32 d)) :
    decodeJump mem a = some (cc, a + BitVec.ofNat 32 (Emitter.GetMaxInstructionSize cc) + d,
      a + BitVec.ofNat 32 (Emitter.GetMaxInstructionSize cc)) := by
  have happend : Holds mem (a + BitVec.ofNat 32 0) (opcode32 cc ++ bytes32 d) := by
    simpa using h
  obtain ⟨hop, hdisp⟩ := holds_append.1 happend
  have hword := word_eq hdisp
  unfold decodeJump
  cases cc with
  | none =>
    have h0 : mem a = 0xe9 := by simpa [opcode32] using hop 0 (by decide)
    rw [h0]
    exact congrArg (fun w => some (none, a + 5 + w, a + 5)) hword
  | some c =>
    have h0 : mem a = 0x0f := by simpa [opcode32] using hop 0 (by simp [opcode32])
    have h1 : mem (a + 1) = 0x80#8 ||| BitVec.ofNat 8 c := by
      simpa [opcode32] using hop 1 (by simp [opcode32])
    obtain ⟨hhigh, hcc⟩ := opcode32_spec c
    rw [h0, h1]
    dsimp only
    rw [if_neg (by decide), if_neg (by decide), if_neg (by decide), if_pos ⟨rfl, hhigh⟩, hcc]
    exact congrArg (fun w => some (some c, a + 6 + w, a + 6)) hword

theorem decode_xJcc8 (e : Emitter) (d : u8) : decodeJump (e.xJcc8 cc d).mem e.ptr =
    some (cc, e.ptr + 2 + d.signExtend 32, e.ptr + 2) := by
  have hholds : Holds (e.xJcc8 cc d).mem e.ptr [opcode8 cc, d] := holds_write (by simp)
  refine decode_short ?_ (hholds 1 (by simp))
  simpa using hholds 0 (by simp)

theorem length_jump (d : s32) : (opcode32 cc ++ bytes32 d).length =
    Emitter.GetMaxInstructionSize cc := by
  rw [List.length_append, ← length_opcode32]
  rfl

theorem ptr_xJcc32 (e : Emitter) (d : s32) : (e.xJcc32 cc d).ptr =
    e.ptr + BitVec.ofNat 32 (Emitter.GetMaxInstructionSize cc) := by
  rw [Emitter.xJcc32, Emitter.xWrite, length_jump]

theorem ptr_sub_four (e : Emitter) (d : s32) : (e.xJcc32 cc d).ptr - 4 =
    e.ptr + BitVec.ofNat 32 (opcode32 cc).length := by
  rw [ptr_xJcc32, ← length_opcode32, BitVec.ofNat_add, ← BitVec.add_assoc]
  exact BitVec.add_sub_cancel _ _

theorem holds_xJcc32 (e : Emitter) (d d' : s32) :
    Holds (patch (e.xJcc32 cc d).mem ((e.xJcc32 cc d).ptr - 4) (bytes32 d')) e.ptr
      (opcode32 cc ++ bytes32 d') := by
  have hlength := length_opcode32 cc
  have hmax := max_le cc
  have hwritten : Holds (e.xJcc32 cc d).mem e.ptr (opcode32 cc ++ bytes32 d) :=
    holds_write (by rw [length_jump]; omega)
  rw [← add_zero_offset (b := e.ptr), holds_append] at hwritten
  have hend : (opcode32 cc).length + (bytes32 d').length ≤ 2 ^ 32 := by
    change _ + 4 ≤ _
    omega
  rw [ptr_sub_four]
  rw [← add_zero_offset (b := e.ptr), holds_append, Nat.zero_add, add_zero_offset]
  refine ⟨?_, holds_patch hend⟩
  have hopcode := hwritten.1.patch _ hend (by omega) (.inl (by omega))
  rwa [add_zero_offset] at hopcode

theorem known_right (e : Emitter) (cc : JccComparisonType) (target : BitVec 32) :
    KnownRight e cc target := by
  unfold KnownRight Emitter.xJccKnownTarget
  simp only [Emitter.slideVal, Bool.false_eq_true, false_and, if_false]
  by_cases hshort : is_s8 (target - (e.ptr + 2) - 0)
  · rw [if_pos hshort]
    have htarget : e.ptr + 2 + (target - (e.ptr + 2) - 0) = target := by bv_omega
    refine ⟨_, rfl, ?_⟩
    rw [decode_xJcc8, show BitVec.signExtend 32 _ = _ from hshort, htarget]
    rfl
  · rw [if_neg hshort]
    refine ⟨_, rfl, ?_⟩
    dsimp only
    rw [decode_long (holds_xJcc32 e 0 _), ← ptr_xJcc32 e 0, BitVec.add_comm,
      BitVec.sub_add_cancel]

@[simp] theorem xAdvancePtr_ptr (e : Emitter) (IsDevBuild : Bool) (n : Nat) :
    (e.xAdvancePtr IsDevBuild n).ptr = e.ptr + BitVec.ofNat 32 n := by
  cases IsDevBuild <;> simp [Emitter.xAdvancePtr, Emitter.xWrite]

theorem Holds.xAdvancePtr {e : Emitter} {c n : Nat} (IsDevBuild : Bool)
    (h : Holds e.mem (b + BitVec.ofNat 32 c) bytes) (hptr : e.ptr =
      b + BitVec.ofNat 32 (c + bytes.length)) (hn : c + bytes.length + n ≤ 2 ^ 32) :
    Holds (e.xAdvancePtr IsDevBuild n).mem (b + BitVec.ofNat 32 c) bytes := by
  cases IsDevBuild with
  | false => exact h
  | true =>
    simp only [Emitter.xAdvancePtr, Emitter.xWrite, if_true, hptr]
    exact h.patch _ (by simpa using hn) (by omega) (.inl le_rfl)

theorem holds_jump (IsDevBuild : Bool) (e : Emitter) (opcode disp code : List u8) {n : Nat}
    (hn : disp.length = n) (hlength : opcode.length + n + code.length ≤ 2 ^ 32) :
    let e' := ((e.xWrite opcode).xAdvancePtr IsDevBuild n).xWrite code
    let mem := patch e'.mem (e.ptr + BitVec.ofNat 32 opcode.length) disp
    Holds mem e.ptr (opcode ++ disp) ∧
      Holds mem (e.ptr + BitVec.ofNat 32 (opcode.length + n)) code ∧
      e'.ptr = e.ptr + BitVec.ofNat 32 (opcode.length + n) + BitVec.ofNat 32 code.length := by
  have hptr : (e.xWrite opcode).ptr = e.ptr + BitVec.ofNat 32 (0 + opcode.length) := by
    rw [Nat.zero_add]; rfl
  have hptr' : ((e.xWrite opcode).xAdvancePtr IsDevBuild n).ptr =
      e.ptr + BitVec.ofNat 32 (opcode.length + n) := by
    rw [xAdvancePtr_ptr, hptr, Nat.zero_add, add_offset]
  have hopcode : Holds (e.xWrite opcode).mem (e.ptr + BitVec.ofNat 32 0) opcode := by
    rw [add_zero_offset]
    exact holds_write (by omega)
  replace hopcode := hopcode.xAdvancePtr IsDevBuild hptr (n := n) (by omega)
  dsimp only [Emitter.xWrite] at *
  rw [hptr']
  refine ⟨?_, ?_, rfl⟩
  · rw [← add_zero_offset (b := e.ptr), holds_append, Nat.zero_add, add_zero_offset]
    refine ⟨?_, holds_patch (by omega)⟩
    replace hopcode := hopcode.patch code (c := opcode.length + n) (by omega) (by omega)
      (.inl (by omega))
    replace hopcode := hopcode.patch disp (c := opcode.length) (by omega) (by omega)
      (.inl (by omega))
    rwa [add_zero_offset] at hopcode
  · exact (holds_patch (by omega)).patch _ (by omega) (by omega) (.inr (by omega))

theorem is_s8_ofNat {n : Nat} (hn : n < 2 ^ 31) : is_s8 (BitVec.ofNat 32 n) ↔ n ≤ 127 := by
  rw [is_s8, ← BitVec.toNat_inj, BitVec.toNat_signExtend, BitVec.msb_eq_decide]
  simp only [BitVec.toNat_setWidth, BitVec.toNat_ofNat, decide_eq_true_eq]
  split <;> omega

theorem add_sub_self (x y : BitVec 32) : x + y - x = y := by
  rw [BitVec.add_comm, BitVec.add_sub_cancel]

theorem forward_short_iff (IsDevBuild : Bool) (e : Emitter) (cc : JccComparisonType)
    (hcode : code.length < 2 ^ 31) :
    ForwardRight IsDevBuild e true cc code ↔ code.length ≤ 127 := by
  let e' := ((e.xWrite [opcode8 cc]).xAdvancePtr IsDevBuild 1).xWrite code
  let disp := BitVec.ofNat 32 code.length
  obtain ⟨hjump, hover, hptr⟩ := holds_jump IsDevBuild e [opcode8 cc] [disp.setWidth 8] code
    (n := 1) rfl (by
      simp only [List.length_singleton]
      omega)
  have hdisp : e'.ptr - (e.ptr + 2) = disp := by
    rw [show e'.ptr = _ from hptr]
    exact add_sub_self _ _
  have hlast : e.ptr + 2 - 1 = e.ptr + BitVec.ofNat 32 [opcode8 cc].length := by
    rw [List.length_singleton]
    bv_omega
  have hset : (xForwardJump.new IsDevBuild e true cc).1.SetTarget
      ((xForwardJump.new IsDevBuild e true cc).2.xWrite code) =
        if is_s8 disp then
          some ⟨patch e'.mem (e.ptr + BitVec.ofNat 32 [opcode8 cc].length) [disp.setWidth 8],
            e'.ptr⟩
        else none := by
    rw [← hlast, ← hdisp]
    rfl
  rw [← is_s8_ofNat hcode, ForwardRight, hset]
  by_cases hshort : is_s8 disp
  · rw [if_pos hshort]
    refine ⟨fun _ => hshort, fun _ => ⟨_, rfl, e.ptr + 2, ?_, hover, hptr⟩⟩
    rw [decode_short (by simpa using hjump 0 (by simp)) (hjump 1 (by simp))]
    simp only [List.singleton_append, List.getElem_cons_succ, List.getElem_cons_zero]
    rw [show BitVec.signExtend 32 _ = _ from hshort]
    exact congrArg (fun a => some (cc, a, e.ptr + 2)) hptr.symm
  · rw [if_neg hshort]
    exact ⟨fun ⟨_, hnone, _⟩ => (Option.some_ne_none _ hnone.symm).elim, fun h => (hshort h).elim⟩

theorem forward_long (IsDevBuild : Bool) (e : Emitter) (cc : JccComparisonType)
    (hcode : code.length < 2 ^ 31) : ForwardRight IsDevBuild e false cc code := by
  let e' := ((e.xWrite (opcode32 cc)).xAdvancePtr IsDevBuild 4).xWrite code
  let disp := BitVec.ofNat 32 code.length
  let size := Emitter.GetMaxInstructionSize cc
  have hsize : (opcode32 cc).length + 4 = size := length_opcode32 cc
  have hmax : size ≤ 6 := max_le cc
  obtain ⟨hjump, hover, hptr⟩ := holds_jump IsDevBuild e (opcode32 cc) (bytes32 disp) code
    (n := 4) rfl (by omega)
  rw [hsize] at hover hptr
  have hbase : (xForwardJump.new IsDevBuild e false cc).1.BasePtr =
      e.ptr + BitVec.ofNat 32 size := by
    cases cc <;> rfl
  have hlast : e.ptr + BitVec.ofNat 32 size - 4 =
      e.ptr + BitVec.ofNat 32 (opcode32 cc).length := by
    rw [← hsize, BitVec.ofNat_add, ← BitVec.add_assoc]
    exact BitVec.add_sub_cancel _ _
  have hdisp : e'.ptr - (e.ptr + BitVec.ofNat 32 size) = disp := by
    rw [show e'.ptr = _ from hptr]
    exact add_sub_self _ _
  have hset : (xForwardJump.new IsDevBuild e false cc).1.SetTarget
      ((xForwardJump.new IsDevBuild e false cc).2.xWrite code) =
        some ⟨patch e'.mem (e.ptr + BitVec.ofNat 32 (opcode32 cc).length) (bytes32 disp),
          e'.ptr⟩ := by
    rw [← hlast, ← hdisp, ← hbase]
    rfl
  refine ⟨_, hset, _, ?_, hover, hptr⟩
  rw [decode_long hjump]
  exact congrArg (fun a => some (cc, a, _)) hptr.symm

theorem forward_iff (IsDevBuild : Bool) (e : Emitter) (short : Bool) (cc : JccComparisonType)
    (hcode : code.length < 2 ^ 31) :
    ForwardRight IsDevBuild e short cc code ↔ (short = true → code.length ≤ 127) := by
  cases short with
  | false => simpa using forward_long IsDevBuild e cc hcode
  | true => simpa using forward_short_iff IsDevBuild e cc hcode

theorem memcpy_in {src : BitVec 32} (h : Holds mem src code) (hcode : code.length ≤ 2 ^ 32) :
    Holds (memcpy mem b src code.length) b code := by
  intro k hk
  have hoffset : (b + BitVec.ofNat 32 k - b).toNat = k := by
    rw [add_sub_self, BitVec.toNat_ofNat, Nat.mod_eq_of_lt (by omega)]
  rw [memcpy, hoffset, if_pos hk, add_sub_self]
  exact h k hk

theorem memcpy_out (mem : Memory) (src : BitVec 32) {c k n : Nat} (hc : c + n ≤ 2 ^ 32)
    (hk : k < c) :
    memcpy mem (b + BitVec.ofNat 32 c) src n (b + BitVec.ofNat 32 k) =
      mem (b + BitVec.ofNat 32 k) := by
  have hoffset := offset_sub (b := b) (c := c) (k := k) (by omega) (by omega)
  rw [memcpy, if_neg]
  rw [hoffset]
  split <;> omega

theorem slide_distance (cc : JccComparisonType) (b d : BitVec 32) :
    b + BitVec.ofNat 32 (Emitter.GetMaxInstructionSize cc) + d - (b + 2) -
      Emitter.slideVal cc true = d := by
  cases cc with
  | none =>
    change b + 5 + d - (b + 2) - 3 = d
    bv_omega
  | some c =>
    change b + 6 + d - (b + 2) - 4 = d
    bv_omega

theorem not_toInt_neg {n : Nat} (hn : n < 2 ^ 31) : ¬ (BitVec.ofNat 32 n).toInt < 0 := by
  have hneg := BitVec.toInt_neg_iff (x := BitVec.ofNat 32 n)
  rw [hneg, BitVec.toNat_ofNat]
  omega

section Smart

variable {d : s32}

theorem smart_short (hbase : b ≠ 0) (hshort : is_s8 d) (hpos : ¬ d.toInt < 0) :
    xSmartJump.SetTarget ⟨b, cc⟩
      ⟨mem, b + BitVec.ofNat 32 (Emitter.GetMaxInstructionSize cc) + d⟩ =
        some ⟨memcpy (Emitter.xJcc8 ⟨mem, b⟩ cc (d.setWidth 8)).mem (b + BitVec.ofNat 32 2)
          (b + BitVec.ofNat 32 (Emitter.GetMaxInstructionSize cc)) d.toNat,
            b + BitVec.ofNat 32 2 + d⟩ := by
  have hslide := slide_distance cc b d
  have hjump : Emitter.xJccKnownTarget ⟨mem, b⟩ cc
      (b + BitVec.ofNat 32 (Emitter.GetMaxInstructionSize cc) + d) true =
        some (Emitter.xJcc8 ⟨mem, b⟩ cc (d.setWidth 8)) := by
    unfold Emitter.xJccKnownTarget
    dsimp only
    rw [hslide, if_neg (fun h => hpos h.2), if_pos hshort]
  have hptr : (Emitter.xJcc8 ⟨mem, b⟩ cc (d.setWidth 8)).ptr = b + BitVec.ofNat 32 2 := rfl
  have hspacer : b + BitVec.ofNat 32 (Emitter.GetMaxInstructionSize cc) -
      (b + BitVec.ofNat 32 2) ≠ 0 := by
    cases cc with
    | none =>
      change b + 5 - (b + 2) ≠ 0
      grind
    | some c =>
      change b + 6 - (b + 2) ≠ 0
      grind
  have hend : b + BitVec.ofNat 32 (Emitter.GetMaxInstructionSize cc) + d -
      (b + BitVec.ofNat 32 (Emitter.GetMaxInstructionSize cc) - (b + BitVec.ofNat 32 2)) =
        b + BitVec.ofNat 32 2 + d := by
    grind
  unfold xSmartJump.SetTarget
  dsimp only
  rw [if_neg hbase, hjump]
  simp only [Option.bind_eq_bind, Option.bind_some, hptr]
  rw [if_pos hspacer, add_sub_self, hend]

theorem smart_long (mem : Memory) (cc : JccComparisonType) (hbase : b ≠ 0) (hlong : ¬ is_s8 d)
    (hpos : ¬ d.toInt < 0) :
    ∃ mem', xSmartJump.SetTarget ⟨b, cc⟩
      ⟨mem, b + BitVec.ofNat 32 (Emitter.GetMaxInstructionSize cc) + d⟩ =
        some ⟨mem', b + BitVec.ofNat 32 (Emitter.GetMaxInstructionSize cc)⟩ ∧
      decodeJump mem' b = some (cc, b + BitVec.ofNat 32 (Emitter.GetMaxInstructionSize cc) + d,
        b + BitVec.ofNat 32 (Emitter.GetMaxInstructionSize cc)) := by
  have hslide := slide_distance cc b d
  refine ⟨patch (Emitter.xJcc32 ⟨mem, b⟩ cc 0).mem ((Emitter.xJcc32 ⟨mem, b⟩ cc 0).ptr - 4)
    (bytes32 d), ?_, decode_long (holds_xJcc32 ⟨mem, b⟩ 0 d)⟩
  have hptr : (Emitter.xJcc32 ⟨mem, b⟩ cc 0).ptr =
      b + BitVec.ofNat 32 (Emitter.GetMaxInstructionSize cc) := ptr_xJcc32 ⟨mem, b⟩ 0
  have hjump : Emitter.xJccKnownTarget ⟨mem, b⟩ cc
      (b + BitVec.ofNat 32 (Emitter.GetMaxInstructionSize cc) + d) true =
        some ⟨patch (Emitter.xJcc32 ⟨mem, b⟩ cc 0).mem ((Emitter.xJcc32 ⟨mem, b⟩ cc 0).ptr - 4)
          (bytes32 d), b + BitVec.ofNat 32 (Emitter.GetMaxInstructionSize cc)⟩ := by
    unfold Emitter.xJccKnownTarget
    dsimp only
    rw [hslide, if_neg (fun h => hpos h.2), if_neg hlong, hptr, add_sub_self]
  unfold xSmartJump.SetTarget
  dsimp only
  rw [if_neg hbase, hjump]
  simp

end Smart

/-- The smart jump: a short one slides the code, a long one leaves `x86Ptr` before it. -/
theorem smart_iff (IsDevBuild : Bool) (e : Emitter) (cc : JccComparisonType)
    (hbase : e.ptr ≠ 0) (hcode : code.length < 2 ^ 31) :
    SmartRight IsDevBuild e cc code ↔ code.length ≤ 127 := by
  let size := Emitter.GetMaxInstructionSize cc
  let d := BitVec.ofNat 32 code.length
  let e' := (e.xAdvancePtr IsDevBuild size).xWrite code
  have hsize : size ≤ 6 := max_le cc
  have hd : d.toNat = code.length := by
    rw [BitVec.toNat_ofNat, Nat.mod_eq_of_lt (by omega)]
  have hpos : ¬ d.toInt < 0 := not_toInt_neg hcode
  have hptr : e'.ptr = e.ptr + BitVec.ofNat 32 size + d := by
    rw [← xAdvancePtr_ptr e IsDevBuild size]
    rfl
  have hover : Holds e'.mem (e.ptr + BitVec.ofNat 32 size) code := by
    rw [← xAdvancePtr_ptr e IsDevBuild size]
    exact holds_write (by omega)
  have hset : (xSmartJump.new IsDevBuild e cc).1.SetTarget
      ((xSmartJump.new IsDevBuild e cc).2.xWrite code) = xSmartJump.SetTarget ⟨e.ptr, cc⟩
        ⟨e'.mem, e.ptr + BitVec.ofNat 32 size + d⟩ := by
    rw [← hptr]
    rfl
  rw [SmartRight, hset, ← is_s8_ofNat hcode]
  by_cases hshort : is_s8 d
  · refine ⟨fun _ => hshort, fun _ => ⟨_, smart_short hbase hshort hpos,
      e.ptr + BitVec.ofNat 32 2, ?_, ?_, rfl⟩⟩
    · have hjump : Holds (Emitter.xJcc8 ⟨e'.mem, e.ptr⟩ cc (d.setWidth 8)).mem
          (e.ptr + BitVec.ofNat 32 0) [opcode8 cc, d.setWidth 8] := by
        rw [add_zero_offset]
        exact holds_write (by simp)
      rw [holds_offset] at hjump
      have hout (k : Nat) (hk : k < 2) := memcpy_out
        (Emitter.xJcc8 ⟨e'.mem, e.ptr⟩ cc (d.setWidth 8)).mem (e.ptr + BitVec.ofNat 32 size)
        (n := d.toNat) (b := e.ptr) (c := 2) (k := k) (by omega) hk
      have h0 := (hout 0 (by decide)).trans (hjump 0 (by simp))
      have h1 := (hout 1 (by decide)).trans (hjump 1 (by simp))
      rw [add_zero_offset] at h0
      rw [decode_short h0 h1]
      simp only [List.getElem_cons_succ, List.getElem_cons_zero]
      rw [show BitVec.signExtend 32 _ = _ from hshort]
      rfl
    · dsimp only
      rw [hd]
      refine memcpy_in ?_ (by omega)
      have hsize' : 5 ≤ size := le_max cc
      have hout := hover.patch [opcode8 cc, d.setWidth 8] (c := 0) (by simp) (by omega)
        (.inr (by simpa using by omega))
      rwa [add_zero_offset] at hout
  · refine ⟨fun h => ?_, fun h => (hshort h).elim⟩
    obtain ⟨mem', hlong, hdecode⟩ := smart_long e'.mem cc hbase hshort hpos
    obtain ⟨e'', he, next, htarget, hcode', hend⟩ := h
    cases hlong.symm.trans he
    have hsame := hdecode.symm.trans htarget
    simp only [Option.some.injEq, Prod.mk.injEq, true_and] at hsame
    have hzero : d = 0 := by
      have := hsame.1
      grind
    rw [hzero] at hshort
    exact (hshort rfl).elim

namespace Emission

theorem right_iff_fits (x : Emission) (h : x.Valid) : x.Right ↔ x.Fits := by
  cases x with
  | address o regfield => exact o.right_iff_form regfield h
  | known e cc target => exact iff_of_true (known_right e cc target) trivial
  | forward IsDevBuild e short cc code => exact forward_iff IsDevBuild e short cc h
  | smart IsDevBuild e cc code => exact smart_iff IsDevBuild e cc h.1 h.2

/-- `ptr[eax*8 + esp + 4]` in place of `ptr[esp + 4 + eax*8]` -/
theorem right_iff_fits_scaled :
    (address (.sum (.addReg (.addImm (.regMul 0 8) 4) esp)) 3).Right ↔
      (address (.sum (.addReg (.addImm (.regMul 0 8) 4) esp)) 3).Fits :=
  right_iff_fits _ ⟨⟨some esp, some (0, 3), 4⟩, by decide, Sum.ext (funext (by decide)) rfl⟩

/-- `ptr[eax + 4 + eax]` is written as `[eax + 4]`. -/
theorem not_right_sum : ∃ x : Emission, x.Valid ∧ ¬ x.Right := by
  refine ⟨address (.sum (.addReg (.regImm 0 4) 0)) 0, ?_, fun ⟨bytes, hemit, hdecode⟩ => ?_⟩
  · exact ⟨⟨some 0, some (0, 0), 4⟩, by decide, Sum.ext (funext (by decide)) rfl⟩
  · have hbytes : Operand.emit (.sum (.addReg (.regImm 0 4) 0)) 0 = some [0x40, 4] := by decide
    cases hbytes.symm.trans hemit
    obtain ⟨f, hf, hsum⟩ := hdecode []
    have hform : decode ([0x40, 4] ++ []) = some (0, ⟨some 0, none, 4⟩, []) := rfl
    cases hform.symm.trans hf
    exact absurd (congrFun (congrArg Sum.coef hsum) 0) (by decide)

end Emission

end OmegaRed.X86
