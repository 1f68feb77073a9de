import OmegaRed.CDVD.RegisterBounds

/-! The data that the MagicGate commands take in and give back. -/

namespace OmegaRed.CDVD.Registers

open cdvdStruct

/-- The memory after a write. -/
def put (m : Buffer → Nat → u8) (b : Buffer) (i n : Nat) (data : List u8) : Buffer → Nat → u8 :=
  Function.update m b fun k => if i ≤ k ∧ k < i + n then data.getD (k - i) (m b k) else m b k

/-- The first bytes of a buffer. -/
def first (m : Buffer → Nat → u8) (b : Buffer) (n : Nat) : List u8 := (List.range n).map (m b)

/-- The parameters of the next command. -/
def params (s : cdvdStruct) : List u8 := first s.memory .Param s.ParamC

/-- The bytes that wait in `mg_buffer`. -/
def queue (s : cdvdStruct) : List u8 := first s.memory .mg_buffer s.mg_size

/-- The bytes of the result that the guest has not read. -/
def pending (s : cdvdStruct) : List u8 :=
  (List.range (s.ResultC - s.ResultP)).map fun k => s.memory .Result (s.ResultP + k)

/-- Parameters `p`, waiting bytes `q`, and a limit to them. -/
structure Link (s : cdvdStruct) (p q : List u8) (limit : Nat) : Prop where
  inv : Inv s
  given : params s = p
  waits : queue s = q
  limit : s.mg_maxsize = limit

/-- The guest reads `r` next. -/
structure Answers (s : cdvdStruct) (r : List u8) : Prop where
  size : s.ResultC = s.ResultP + r.length
  ready : r ≠ [] → s.sDataIn &&& 0x40 = 0
  bytes : pending s = r

section

variable {m : Buffer → Nat → u8} {b c : Buffer} {i n : Nat} {data : List u8}

@[simp] theorem put_of_ne (hb : c ≠ b) : put m b i n data c = m c := Function.update_of_ne hb ..

theorem put_self (k : Nat) : put m b i n data b k =
    if i ≤ k ∧ k < i + n then data.getD (k - i) (m b k) else m b k := by
  rw [put, Function.update_self]

theorem first_put_of_ne (hb : c ≠ b) (k : Nat) : first (put m b i n data) c k = first m c k := by
  rw [first, put_of_ne hb, first]

@[simp] theorem length_first (k : Nat) : (first m b k).length = k := by simp [first]

theorem take_first (k : Nat) : (first m b n).take k = first m b (min k n) := by
  rw [first, first, ← List.map_take, List.take_range]

theorem drop_first (k : Nat) :
    (first m b n).drop k = (List.range (n - k)).map fun i => m b (k + i) := by
  refine List.ext_getElem (by simp) fun i hi hi' => ?_
  simp [first]

theorem first_put (hn : data.length = n) : first (put m b i n data) b (i + n) =
    first m b i ++ data := by
  refine List.ext_getElem (by simp [hn]) fun k hk hk' => ?_
  rw [length_first] at hk
  simp only [first, List.getElem_map, List.getElem_range, put_self]
  by_cases hlt : k < i
  · rw [if_neg (by omega), List.getElem_append_left (by simpa using hlt)]
    simp
  · rw [if_pos (by omega), List.getElem_append_right (by simpa using hlt)]
    simp [List.getElem?_eq_getElem (show k - i < data.length by omega)]

end

variable {s : cdvdStruct} {p q : List u8} {limit : Nat} {e : Env}

theorem writeBytes_eq {b : Buffer} {i n : Nat} {data : List u8} (hi : i + n ≤ b.size) :
    s.writeBytes b i n data = some { s with memory := put s.memory b i n data } := if_pos hi

theorem first_eq (b : Buffer) {n : Nat} (hn : n ≤ b.size) :
    s.readBytes b 0 n = some (first s.memory b n) := by
  have hread := readBytes_eq (s := s) (b := b) (n := n) (i := 0) (by omega)
  simpa [first] using hread

theorem Link.length_params (h : Link s p q limit) : s.ParamC = p.length := by
  rw [← h.given, params, length_first]

theorem Link.length_queue (h : Link s p q limit) : s.mg_size = q.length := by
  rw [← h.waits, queue, length_first]

theorem Link.dataParam (h : Link s p q limit) (v : u8) : ∃ t, s.cdvdWrite17 v = some t ∧
    Link t (if p.length < 32 then p ++ [v] else p) q limit := by
  obtain ⟨t, ht, hinv⟩ := cdvdWrite17_safe h.inv v
  have hlength := h.length_params
  have hC := h.inv.ParamC
  by_cases hlt : s.ParamP < 32
  · have hstep := ht
    rw [cdvdWrite17, if_pos hlt, write, writeBytes_eq hlt] at hstep
    refine ⟨t, ht, hinv, ?_, ?_, ?_⟩
    all_goals cases hstep
    · change first (put s.memory .Param s.ParamP 1 [v]) .Param (s.ParamC + 1) = _
      rw [if_pos (by omega), ← h.given, hC, first_put (show [v].length = 1 from rfl), params,
        hC]
    · exact (first_put_of_ne (by decide) _).trans h.waits
    · exact h.limit
  · have hstep := ht
    rw [cdvdWrite17, if_neg hlt] at hstep
    refine ⟨t, ht, ?_⟩
    cases hstep
    rw [if_neg (by omega)]
    exact h

theorem Link.putResult (h : Link s p q limit) {i n : Nat} (hi : i + n ≤ 31) (data : List u8) :
    Link { s with memory := put s.memory .Result i n data } p q limit := by
  have hsize : i + n ≤ Buffer.size .Result := by
    change i + n ≤ 32
    omega
  obtain ⟨m, hm, hinv⟩ : ∃ m, s.writeBytes .Result i n data = some { s with memory := m } ∧ _ :=
    h.inv.writeBytes hsize fun _ => hi
  rw [writeBytes_eq hsize] at hm
  refine ⟨Option.some.inj hm ▸ hinv, ?_, ?_, h.limit⟩
  · exact (first_put_of_ne (by decide) _).trans h.given
  · exact (first_put_of_ne (by decide) _).trans h.waits

theorem Link.finish (h : Link s p q limit) {rt : Nat} (hfit : Fits s rt) {t : cdvdStruct}
    {q' : List u8} {limit' : Nat}
    (ht : ({ s with memory := put s.memory .Result 0 1 [0] } : cdvdStruct).command e rt =
      some (t, true))
    (hq : queue t = q') (hlimit : t.mg_maxsize = limit') :
    s.cdvdWrite16 e rt = some { t with ParamP := 0, ParamC := 0 } ∧
      Link { t with ParamP := 0, ParamC := 0 } [] q' limit' := by
  have hwrite : s.cdvdWrite16 e rt = some { t with ParamP := 0, ParamC := 0 } := by
    rw [cdvdWrite16, write, writeBytes_eq (by decide), Option.bind_eq_bind, Option.bind_some, ht]
    rfl
  obtain ⟨u, hu, hinv⟩ := cdvdWrite16_safe (e := e) h.inv hfit
  rw [hwrite] at hu
  exact ⟨hwrite, Option.some.inj hu ▸ hinv, rfl, hq, hlimit⟩

theorem Link.setResultSize (h : Link s p q limit) {n : Nat} (hn : n ≤ 16) :
    Link (s.SetResultSize n) p q limit :=
  ⟨h.inv.setResultSize hn, h.given, h.waits, h.limit⟩

theorem Link.sceMgWriteData (h : Link s p q limit) : ∃ t, s.sceMgWriteData = some (t, true) ∧
    queue t = (if q.length + p.length ≤ limit then q ++ p else q) ∧ t.mg_maxsize = limit := by
  replace h := h.setResultSize (n := 1) (by decide)
  unfold cdvdStruct.sceMgWriteData
  generalize s.SetResultSize 1 = t at h
  have hP := h.inv.ParamP
  have hC := h.inv.ParamC
  have hmax := h.inv.mg_maxsize
  have hp := h.length_params
  have hq := h.length_queue
  have hlimit := h.limit
  dsimp only
  by_cases hover : t.mg_size + t.ParamC > t.mg_maxsize
  · rw [if_pos hover, write, writeBytes_eq (by decide), if_neg (by omega)]
    exact ⟨_, rfl, (first_put_of_ne (by decide) _).trans h.waits, h.limit⟩
  · have hread : t.readBytes .Param 0 t.ParamC = some p := by
      refine (first_eq .Param (?_ : t.ParamC ≤ 32)).trans (congrArg some h.given)
      omega
    rw [if_neg hover, if_pos (by omega), hread, Option.bind_eq_bind, Option.bind_some,
      writeBytes_eq (show t.mg_size + t.ParamC ≤ 65536 by omega), Option.bind_eq_bind,
      Option.bind_some, write, writeBytes_eq (by decide)]
    refine ⟨_, rfl, (first_put_of_ne (by decide) _).trans ?_, h.limit⟩
    change first (put t.memory .mg_buffer t.mg_size t.ParamC p) .mg_buffer _ = _
    rw [hp, first_put rfl, ← h.waits, queue]

theorem Link.dataIn (h : Link s p q limit) : ∃ t, s.cdvdWrite16 e 0x8D = some t ∧
    Link t [] (if q.length + p.length ≤ limit then q ++ p else q) limit := by
  obtain ⟨t, ht, hqueue, hlimit⟩ := (h.putResult (i := 0) (n := 1) (by decide) [0]).sceMgWriteData
  have hfit : Fits s 0x8D := by simp [Fits]
  exact ⟨_, h.finish (e := e) hfit ht hqueue hlimit⟩

theorem Link.sceMgWriteDataoutLength (h : Link s p q limit) : ∃ t,
    s.sceMgWriteDataoutLength = some (t, true) ∧ queue t = q := by
  replace h := h.setResultSize (n := 1) (by decide)
  unfold cdvdStruct.sceMgWriteDataoutLength
  generalize s.SetResultSize 1 = t at h
  dsimp only
  rw [length_eq, Option.bind_eq_bind, Option.bind_some, write, write, writeBytes_eq (by decide),
    writeBytes_eq (by decide)]
  split
  · exact ⟨_, rfl, (first_put_of_ne (by decide) _).trans h.waits⟩
  · exact ⟨_, rfl, (first_put_of_ne (by decide) _).trans h.waits⟩

theorem Link.dataOutLength (h : Link s p q limit) : ∃ t limit',
    s.cdvdWrite16 e 0x93 = some t ∧ Link t [] q limit' := by
  obtain ⟨t, ht, hqueue⟩ :=
    (h.putResult (i := 0) (n := 1) (by decide) [0]).sceMgWriteDataoutLength
  have hfit : Fits s 0x93 := by simp [Fits]
  exact ⟨_, _, h.finish (e := e) hfit ht hqueue rfl⟩

theorem Link.rest (h : Link s p q limit) {c : Nat} (hc : c ≤ s.mg_size) :
    s.readBytes .mg_buffer c (s.mg_size - c) = some (q.drop c) := by
  have hsize := h.inv.mg_size
  rw [readBytes_eq (show c + (s.mg_size - c) ≤ 65536 by omega), ← h.waits, queue, drop_first]

theorem first_front {m : Buffer → Nat → u8} {b : Buffer} {n : Nat} {data : List u8}
    (hn : data.length = n) : first (put m b 0 n data) b n = data := by
  have hput := first_put (m := m) (b := b) (i := 0) hn
  rwa [Nat.zero_add] at hput

theorem Link.sceMgReadData (h : Link s p q limit) : ∃ t, s.sceMgReadData = some (t, true) ∧
    queue t = q.drop 16 ∧ t.mg_maxsize = limit ∧ Answers t (q.take 16) := by
  have hmin : min 16 s.mg_size ≤ 16 := Nat.min_le_left ..
  have hready : (s.SetResultSize (min 16 s.mg_size)).sDataIn &&& 0x40 = 0 := by
    change s.sDataIn &&& ~~~0x40#8 &&& 0x40#8 = 0
    rw [BitVec.and_assoc]
    exact BitVec.and_zero
  have hstart : (s.SetResultSize (min 16 s.mg_size)).ResultP = 0 := rfl
  have hcount : (s.SetResultSize (min 16 s.mg_size)).ResultC =
    min 16 (s.SetResultSize (min 16 s.mg_size)).mg_size := rfl
  replace h := h.setResultSize hmin
  unfold cdvdStruct.sceMgReadData
  generalize s.SetResultSize (min 16 s.mg_size) = t at h hready hstart hcount ⊢
  have hq := h.length_queue
  have hsize := h.inv.mg_size
  have htake : first t.memory .mg_buffer t.ResultC = q.take 16 := by
    rw [hcount, ← take_first]
    exact congrArg _ h.waits
  have hlength : (q.take 16).length = t.ResultC := by rw [List.length_take, hcount, hq]
  have hdrop : q.drop t.ResultC = q.drop 16 := by
    rw [hcount, hq]
    rcases Nat.le_total 16 q.length with hle | hle
    · rw [Nat.min_eq_left hle]
    · rw [Nat.min_eq_right hle, List.drop_length, List.drop_eq_nil_of_le hle]
  have hlength' : (q.drop 16).length = t.mg_size - t.ResultC := by
    rw [List.length_drop, hcount]
    omega
  have hput := h.putResult (i := 0) (n := t.ResultC) (by omega) (q.take 16)
  dsimp only
  rw [first_eq .mg_buffer (show t.ResultC ≤ 65536 by omega), htake, Option.bind_eq_bind,
    Option.bind_some, writeBytes_eq (show 0 + t.ResultC ≤ 32 by omega), Option.bind_eq_bind,
    Option.bind_some]
  have hrest := hput.rest (show t.ResultC ≤ t.mg_size by omega)
  rw [hdrop] at hrest
  rw [hrest, Option.bind_some,
    writeBytes_eq (show 0 + (t.mg_size - t.ResultC) ≤ 65536 by omega), Option.bind_some]
  refine ⟨_, rfl, first_front hlength', h.limit, ?_, fun _ => hready, ?_⟩
  · change t.ResultC = t.ResultP + _
    rw [hstart, hlength, Nat.zero_add]
  · have hfirst : first (put t.memory .Result 0 t.ResultC (q.take 16)) .Result t.ResultC =
        q.take 16 := first_front hlength
    simp only [pending, hstart, put_of_ne (show Buffer.Result ≠ .mg_buffer by decide)]
    simpa [first] using hfirst

theorem Link.dataOut (h : Link s p q limit) : ∃ t, s.cdvdWrite16 e 0x8E = some t ∧
    Link t [] (q.drop 16) limit ∧ Answers t (q.take 16) := by
  obtain ⟨t, ht, hqueue, hlimit, hanswer⟩ :=
    (h.putResult (i := 0) (n := 1) (by decide) [0]).sceMgReadData
  have hfit : Fits s 0x8E := by simp [Fits]
  obtain ⟨hstep, hlink⟩ := h.finish (e := e) hfit ht hqueue hlimit
  exact ⟨_, hstep, hlink, hanswer.1, hanswer.2, hanswer.3⟩

theorem cdvdRead_frame {key : Nat} {t : cdvdStruct} {v : u8}
    (h : s.cdvdRead e key = some (t, v)) : t.memory = s.memory ∧ t.ParamC = s.ParamC ∧
      t.mg_size = s.mg_size ∧ t.mg_maxsize = s.mg_maxsize := by
  have hkey {i : Int} (hread : (s.read .Key i).map (fun v => (s, v)) = some (t, v)) : t = s := by
    obtain ⟨w, -, heq⟩ := Option.map_eq_some_iff.1 hread
    exact (congrArg Prod.fst heq).symm
  unfold cdvdRead at h
  split at h
  · unfold cdvdRead18 at h
    split at h
    · obtain ⟨w, -, heq⟩ := Option.bind_eq_some_iff.1 h
      cases heq
      exact ⟨rfl, rfl, rfl, rfl⟩
    · cases h
      exact ⟨rfl, rfl, rfl, rfl⟩
  · have heq : t = s := by
      split at h
      · exact hkey h
      split at h
      · exact hkey h
      split at h
      · exact hkey h
      split at h
      · exact hkey h
      · cases h
        rfl
    rw [heq]
    exact ⟨rfl, rfl, rfl, rfl⟩

theorem Link.read (h : Link s p q limit) (key : Nat) : ∃ t v, s.cdvdRead e key = some (t, v) ∧
    Link t p q limit := by
  obtain ⟨t, v, ht, hinv⟩ := cdvdRead_safe (e := e) h.inv key
  obtain ⟨hmemory, hparam, hsize, hmax⟩ := cdvdRead_frame ht
  refine ⟨t, v, ht, hinv, ?_, ?_, hmax.trans h.limit⟩
  · rw [params, hmemory, hparam]
    exact h.given
  · rw [queue, hmemory, hsize]
    exact h.waits

theorem Answers.read {v : u8} {r : List u8} (h : Answers s (v :: r)) (hinv : Inv s) :
    ∃ t, s.cdvdRead e 0x18 = some (t, v) ∧ Answers t r := by
  have hsize := h.size
  have hC := hinv.ResultC
  rw [List.length_cons] at hsize
  have hbytes := h.bytes
  rw [pending, hsize, Nat.add_sub_cancel_left, List.range_succ_eq_map, List.map_cons, List.map_map]
    at hbytes
  obtain ⟨hv, hr⟩ := List.cons.inj hbytes
  have hread : s.read .Result (s.ResultP : Int) = some v :=
    (read_eq (show s.ResultP < 32 by omega)).trans (congrArg some hv)
  change ∃ t, s.cdvdRead18 = some (t, v) ∧ Answers t r
  rw [cdvdRead18, if_pos ⟨h.ready (List.cons_ne_nil v r), by omega⟩]
  dsimp only
  rw [Nat.add_sub_cancel, hread, Option.bind_eq_bind, Option.bind_some]
  refine ⟨_, rfl, ?_, fun hne => ?_, ?_⟩
  · change s.ResultC = s.ResultP + 1 + r.length
    omega
  · have hpos := List.length_pos_iff.2 hne
    dsimp only
    rw [if_neg (by omega)]
    exact h.ready (List.cons_ne_nil v r)
  · change (List.range (s.ResultC - (s.ResultP + 1))).map _ = r
    rw [hsize, show s.ResultP + (r.length + 1) - (s.ResultP + 1) = r.length by omega]
    refine Eq.trans (List.map_congr_left fun k _ => ?_) hr
    change s.memory .Result (s.ResultP + 1 + k) = s.memory .Result (s.ResultP + (k + 1))
    rw [Nat.add_assoc, Nat.add_comm 1 k]

theorem Link.param (h : Link s p q limit) {i : Nat} (hi : i < p.length) :
    s.memory .Param i = p[i] := by
  have hgiven := h.given
  subst hgiven
  simp [params, first]

/-- The length commands, with what they announce. -/
inductive Announces : u8 → List u8 → Nat → Prop
  | datain (low high : u8) (more : List u8) :
      Announces 0x92 (low :: high :: more) (low.toNat + 256 * high.toNat)
  | header (v low high : u8) (more : List u8) :
      Announces 0x90 (v :: low :: high :: more) (low.toNat + 256 * high.toNat)

theorem sceMgWriteDatainLength_eq : ∃ t,
    s.sceMgWriteDatainLength = some (t, true) ∧ queue t = [] ∧ t.mg_maxsize =
      (s.memory .Param 0).toNat + 256 * (s.memory .Param 1).toNat := by
  unfold sceMgWriteDatainLength
  dsimp only
  rw [length_eq, Option.bind_eq_bind, Option.bind_some, write, writeBytes_eq (by decide)]
  exact ⟨_, rfl, rfl, rfl⟩

theorem sceMgWriteHeaderStart_eq : ∃ t,
    s.sceMgWriteHeaderStart = some (t, true) ∧ queue t = [] ∧ t.mg_maxsize =
      (s.memory .Param 1).toNat + 256 * (s.memory .Param 2).toNat := by
  have h1 : (s.SetResultSize 1).read .Param 1 = some _ := read_eq (i := 1) (by decide)
  have h2 : (s.SetResultSize 1).read .Param 2 = some _ := read_eq (i := 2) (by decide)
  unfold sceMgWriteHeaderStart
  dsimp only
  rw [h1, Option.bind_eq_bind, Option.bind_some, h2, Option.bind_eq_bind, Option.bind_some, write,
    writeBytes_eq (by decide)]
  exact ⟨_, rfl, rfl, rfl⟩

theorem Link.announce {rt : u8} {c : List u8} {limit' : Nat} (ha : Announces rt c limit')
    (h : Link s (c.take 32) q limit) :
    ∃ t, s.cdvdWrite16 e rt.toNat = some t ∧ Link t [] [] limit' := by
  have hput := h.putResult (i := 0) (n := 1) (by decide) [0]
  cases ha with
  | datain low high more =>
    have h0 := hput.param (i := 0) (by simp)
    have h1 := hput.param (i := 1) (by simp)
    have hfit : Fits s 0x92 := by simp [Fits]
    obtain ⟨t, ht, hqueue, hlimit⟩ := sceMgWriteDatainLength_eq (s := { s with memory := _ })
    rw [h0, h1] at hlimit
    exact ⟨_, h.finish (e := e) hfit ht hqueue hlimit⟩
  | header v low high more =>
    have h1 := hput.param (i := 1) (by simp)
    have h2 := hput.param (i := 2) (by simp)
    have hfit : Fits s 0x90 := by simp [Fits]
    obtain ⟨t, ht, hqueue, hlimit⟩ := sceMgWriteHeaderStart_eq (s := { s with memory := _ })
    rw [h1, h2] at hlimit
    exact ⟨_, h.finish (e := e) hfit ht hqueue hlimit⟩

/-- A run of these accesses, whatever it gets from elsewhere. -/
def Runs (s : cdvdStruct) (l : List Access) (P : cdvdStruct → List u8 → Prop) : Prop :=
  ∀ as : List (Access × Env), as.map Prod.fst = l → ∃ t vs, run s as = some (t, vs) ∧ P t vs

section

variable {P Q : cdvdStruct → List u8 → Prop} {l l' : List Access} {a : Access}

theorem Runs.nil (h : P s []) : Runs s [] P := by
  intro as has
  rw [List.map_eq_nil_iff.1 has]
  exact ⟨s, [], rfl, h⟩

theorem Runs.cons (h : ∀ e, ∃ t v, step s (a, e) = some (t, v) ∧
    Runs t l fun u vs => P u (v ++ vs)) : Runs s (a :: l) P := by
  intro as has
  obtain ⟨⟨a', e⟩, bs, rfl, ha, hbs⟩ := List.map_eq_cons_iff.1 has
  change a' = a at ha
  subst ha
  obtain ⟨t, v, hstep, hrest⟩ := h e
  obtain ⟨u, vs, hrun, hP⟩ := hrest bs hbs
  refine ⟨u, v ++ vs, ?_, hP⟩
  simp [run, hstep, hrun]

theorem run_append (as bs : List (Access × Env)) : run s (as ++ bs) = (do
    let (t, vs) ← run s as
    let (u, ws) ← run t bs
    some (u, vs ++ ws)) := by
  induction as generalizing s with
  | nil =>
    rcases hrun : run s bs with _ | ⟨u, ws⟩
    · simp [run, hrun]
    · simp [run, hrun]
  | cons a as ih =>
    rcases hstep : step s a with _ | ⟨t, v⟩
    · simp [run, hstep]
    · simp only [List.cons_append, run, hstep, Option.bind_eq_bind, Option.bind_some, ih]
      rcases run t as with _ | ⟨u, ws⟩
      · rfl
      · simp only [Option.bind_some]
        rcases run u bs with _ | ⟨w, xs⟩
        · rfl
        · simp

theorem Runs.append (h : Runs s l P)
    (h' : ∀ t vs, P t vs → Runs t l' fun u ws => Q u (vs ++ ws)) :
    Runs s (l ++ l') Q := by
  intro as has
  obtain ⟨bs, cs, rfl, hbs, hcs⟩ := List.map_eq_append_iff.1 has
  obtain ⟨t, vs, hrun, hP⟩ := h bs hbs
  obtain ⟨u, ws, hrun', hQ⟩ := h' t vs hP cs hcs
  refine ⟨u, vs ++ ws, ?_, hQ⟩
  simp [run_append, hrun, hrun']

theorem Runs.mono (h : Runs s l P) (hPQ : ∀ t vs, P t vs → Q t vs) : Runs s l Q := by
  intro as has
  obtain ⟨t, vs, hrun, hP⟩ := h as has
  exact ⟨t, vs, hrun, hPQ t vs hP⟩

end

/-- A command with parameters, and reads of registers after it. -/
def call (rt : u8) (c : List u8 × List Nat) : List Access :=
  c.1.map (.write 0x17) ++ .write 0x16 rt :: c.2.map .read

/-- So many data-out commands, and what they give is read, when `n` bytes wait. -/
def dataOuts : Nat → Nat → List Access
  | 0, _ => []
  | m + 1, n => .write 0x16 0x8E :: (List.replicate (min 16 n) (.read 0x18) ++ dataOuts m (n - 16))

/-- The bytes that data-in commands with these parameters leave waiting: a command takes at most
32 bytes, and none that do not fit the limit. -/
def accepted (limit : Nat) (q : List u8) : List (List u8) → List u8
  | [] => q
  | c :: cs => accepted limit
      (if q.length + (c.take 32).length ≤ limit then q ++ c.take 32 else q) cs

/-- What goes in after a length command comes out in the same order. -/
def Returns (s : cdvdStruct) : Prop :=
  s.ParamP = 0 → ∀ rt c keys limit, Announces rt c limit → ∀ ins outs : List (List u8 × List Nat),
    Runs s (call rt (c, keys) ++ ins.flatMap (call 0x8D) ++ outs.flatMap (call 0x93)) fun t _ =>
      ∀ m, Runs t (dataOuts m (accepted limit [] (ins.map Prod.fst)).length) fun _ vs =>
        vs = (accepted limit [] (ins.map Prod.fst)).take (16 * m)

theorem Link.params_run (h : Link s p q limit) (hp : p.length ≤ 32) (c : List u8) :
    Runs s (c.map (.write 0x17)) fun t _ => Link t ((p ++ c).take 32) q limit := by
  induction c generalizing s p with
  | nil =>
    refine Runs.nil ?_
    rwa [List.append_nil, List.take_of_length_le hp]
  | cons v c ih =>
    refine Runs.cons fun e => ?_
    obtain ⟨t, ht, hlink⟩ := h.dataParam v
    refine ⟨t, [], congrArg (Option.map _) ht, ?_⟩
    by_cases hlt : p.length < 32
    · rw [if_pos hlt] at hlink
      refine (ih hlink (by rwa [List.length_append])).mono fun u _ hu => ?_
      rwa [List.append_assoc, List.singleton_append] at hu
    · rw [if_neg hlt] at hlink
      refine (ih hlink hp).mono fun u _ hu => ?_
      rw [List.take_append_of_le_length (by omega)] at hu ⊢
      exact hu

theorem reads_run {P : cdvdStruct → Prop} (hread : ∀ t key e, P t → ∃ u v,
    t.cdvdRead e key = some (u, v) ∧ P u) (h : P s) (keys : List Nat) :
    Runs s (keys.map .read) fun t _ => P t := by
  induction keys generalizing s with
  | nil => exact Runs.nil h
  | cons key keys ih =>
    refine Runs.cons fun e => ?_
    obtain ⟨t, v, ht, hP⟩ := hread s key e h
    exact ⟨t, [v], congrArg (Option.map _) ht, ih hP⟩

theorem Link.call_run {P : cdvdStruct → Prop} {rt : u8} (c : List u8 × List Nat)
    (hread : ∀ t key e, P t → ∃ u v, t.cdvdRead e key = some (u, v) ∧ P u)
    (hcommand : ∀ t e, Link t (c.1.take 32) q limit →
      ∃ u, t.cdvdWrite16 e rt.toNat = some u ∧ P u)
    (h : Link s [] q limit) : Runs s (call rt c) fun t _ => P t := by
  refine (h.params_run (Nat.zero_le _) c.1).append fun t _ ht => Runs.cons fun e => ?_
  obtain ⟨u, hu, hP⟩ := hcommand t e ht
  exact ⟨u, [], congrArg (Option.map _) hu, reads_run hread hP c.2⟩

theorem Link.dataIns_run (h : Link s [] q limit) (ins : List (List u8 × List Nat)) :
    Runs s (ins.flatMap (call 0x8D)) fun t _ =>
      Link t [] (accepted limit q (ins.map Prod.fst)) limit := by
  induction ins generalizing s q with
  | nil => exact Runs.nil h
  | cons c ins ih =>
    refine (h.call_run c (fun t key e ht => ht.read key) fun t e ht => ht.dataIn).append ?_
    exact fun t _ ht => ih ht

theorem dataOutLengths_run (h : ∃ limit, Link s [] q limit) (outs : List (List u8 × List Nat)) :
    Runs s (outs.flatMap (call 0x93)) fun t _ => ∃ limit, Link t [] q limit := by
  induction outs generalizing s with
  | nil => exact Runs.nil h
  | cons c outs ih =>
    obtain ⟨limit, hlink⟩ := h
    refine (hlink.call_run (P := fun t => ∃ limit, Link t [] q limit) c ?_ ?_).append
      fun t _ ht => ih ht
    · rintro t key e ⟨limit, ht⟩
      obtain ⟨u, v, hu, hlink⟩ := ht.read (e := e) key
      exact ⟨u, v, hu, limit, hlink⟩
    · intro t e ht
      obtain ⟨u, limit', hu, hlink⟩ := ht.dataOutLength (e := e)
      exact ⟨u, hu, limit', hlink⟩

theorem Answers.reads_run {r : List u8} (h : Answers s r) (hlink : Link s [] q limit) :
    Runs s (List.replicate r.length (.read 0x18)) fun t vs => vs = r ∧ Link t [] q limit := by
  induction r generalizing s with
  | nil => exact Runs.nil ⟨rfl, hlink⟩
  | cons v r ih =>
    refine Runs.cons fun e => ?_
    obtain ⟨t, ht, hanswer⟩ := h.read (e := e) hlink.inv
    obtain ⟨u, w, hu, hlink'⟩ := hlink.read (e := e) 0x18
    obtain ⟨rfl, rfl⟩ := Prod.mk.inj (Option.some.inj (ht.symm.trans hu))
    refine ⟨t, [v], congrArg (Option.map _) ht, (ih hanswer hlink').mono ?_⟩
    rintro u vs ⟨rfl, hu⟩
    exact ⟨rfl, hu⟩

theorem Link.dataOuts_run (h : Link s [] q limit) (m : Nat) :
    Runs s (dataOuts m q.length) fun _ vs => vs = q.take (16 * m) := by
  induction m generalizing s q with
  | zero => exact Runs.nil rfl
  | succ m ih =>
    refine Runs.cons fun e => ?_
    obtain ⟨t, ht, hlink, hanswer⟩ := h.dataOut (e := e)
    refine ⟨t, [], congrArg (Option.map _) ht, ?_⟩
    rw [← List.length_take, ← List.length_drop]
    refine (hanswer.reads_run hlink).append ?_
    rintro u _ ⟨rfl, hu⟩
    refine (ih hu).mono fun w vs hvs => ?_
    rw [hvs, List.nil_append, show 16 * (m + 1) = 16 + 16 * m by omega, List.take_add]

theorem Inv.returns (h : Inv s) : Returns s := by
  intro hP rt c keys limit ha ins outs
  have hlink : Link s [] (queue s) s.mg_maxsize := by
    refine ⟨h, ?_, rfl, rfl⟩
    rw [params, h.ParamC, hP]
    rfl
  have hstart : Runs s (call rt (c, keys)) fun t _ => Link t [] [] limit :=
    hlink.call_run (c, keys) (fun t key e ht => ht.read key) fun t e ht => ht.announce ha
  have hins : Runs s (call rt (c, keys) ++ ins.flatMap (call 0x8D)) fun t _ =>
      Link t [] (accepted limit [] (ins.map Prod.fst)) limit :=
    hstart.append fun t _ ht => ht.dataIns_run ins
  refine hins.append fun t _ ht => (dataOutLengths_run ⟨limit, ht⟩ outs).mono fun u _ hu m => ?_
  obtain ⟨_, hlink'⟩ := hu
  exact hlink'.dataOuts_run m

/-- A run stays inside of the buffers, and what goes in comes out after each part of it. -/
def Keeps (RTC : Rtc.cdvdRTC) (as : List (Access × Env)) : Prop :=
  (run (reset RTC) as).isSome ∧
    ∀ before after t vs, as = before ++ after → run (reset RTC) before = some (t, vs) → Returns t

theorem run_inv (h : Inv s) {as : List (Access × Env)} {t : cdvdStruct} {vs : List u8}
    (hrun : run s as = some (t, vs)) : Inv t := by
  induction as generalizing s vs with
  | nil =>
    cases hrun
    exact h
  | cons a as ih =>
    by_cases hfit : a.1.Fits s
    · obtain ⟨u, v, hstep, hinv⟩ := step_safe h hfit
      rcases hrest : run u as with _ | ⟨w, ws⟩
      · simp [run, hstep, hrest] at hrun
      · simp only [run, hstep, hrest, Option.bind_eq_bind, Option.bind_some, Option.some.injEq,
          Prod.mk.injEq] at hrun
        obtain ⟨rfl, rfl⟩ := hrun
        exact ih hinv hrest
    · simp [run, step_none h hfit] at hrun

end OmegaRed.CDVD.Registers
