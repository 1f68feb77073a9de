import OmegaRed.CDVD.IsoFile
import OmegaRed.Lib.Words

/-! Directories of an ISO image: their records, and the way along a path. -/

namespace OmegaRed.CDVD.IsoFS

open Lib Lib.Memory

inductive Fault where
  | endOfStream
  | fileNotFound
  /-- An access outside of the record buffer. -/
  | outOfBuffer
  deriving DecidableEq

/-- The size of the buffer `b` of `IsoDirectory::Init`. -/
def bufferSize : Nat := 257

def toChar (b : UInt8) : Char := .ofNat b.toNat

namespace IsoFileDescriptor

def isFile (d : IsoFileDescriptor) : Bool := d.flags &&& 2 = 0

def blank : IsoFileDescriptor := ⟨⟨0, 0, 0, 0, 0, 0, 0⟩, 0, 0, 0, []⟩

/-- The name of a record whose name field is `n` bytes long. -/
def loadName (data : Nat → UInt8) (n : Nat) : List Char :=
  if n = 1 then
    if data 33 = 0 then ['.'] else if data 33 = 1 then ['.', '.'] else [toChar (data 33)]
  else (load data 33 n).map toChar

def load (data : Nat → UInt8) : IsoFileDescriptor where
  lba := Words.loadWord data 2
  size := Words.loadWord data 10
  date := ⟨(data 18).toNat + 1900, data 19, data 20, data 21, data 22, data 23, data 24⟩
  flags := data 25
  name := loadName data (data 32).toNat

/-- The last byte that `load` reads lies in the buffer. -/
def Fits (data : Nat → UInt8) : Prop := 33 + (data 32).toNat ≤ bufferSize

instance (data : Nat → UInt8) : Decidable (Fits data) :=
  inferInstanceAs (Decidable (33 + (data 32).toNat ≤ bufferSize))

end IsoFileDescriptor

/-- What `Init` comes to, and the sectors it has asked for. -/
structure Outcome where
  files : Except Fault (List IsoFileDescriptor)
  sectors : List UInt32

namespace IsoDirectory

/-- The loop of `Init`, with fuel. -/
def initLoop : Nat → IsoFile → UInt32 → (Nat → UInt8) → List IsoFileDescriptor → Option Outcome
  | 0, _, _, _, _ => none
  | fuel + 1, f, remainingSize, b, files =>
    if remainingSize < 4 then some ⟨.ok files, f.sectors⟩
    else
      match f.readByte with
      | none => some ⟨.error .endOfStream, f.sectors⟩
      | some (len, f) =>
        if len = 0 then some ⟨.ok files, f.sectors⟩
        else
          let remainingSize := remainingSize - len.toUInt32
          let (data, f) := f.read (len.toNat - 1)
          let b := store b 0 (len :: data)
          if IsoFileDescriptor.Fits b then
            initLoop fuel f remainingSize b (files ++ [.load b])
          else some ⟨.error .outOfBuffer, f.sectors⟩

/-- `Init`; `b` is what the record buffer holds before. -/
def init (fuel : Nat) (reader : SectorSource) (directoryEntry : IsoFileDescriptor)
    (b : Nat → UInt8) : Option Outcome :=
  initLoop fuel (.init reader directoryEntry) directoryEntry.size b []

/-- `GetEntry` by name, through `GetIndexOf`. -/
def getEntry (files : List IsoFileDescriptor) (fileName : List Char) :
    Except Fault IsoFileDescriptor :=
  match files.find? fun d => d.name = fileName with
  | some d => .ok d
  | none => .error .fileNotFound

/-- A path as `wxFileName` splits it. -/
structure Path where
  dirs : List (List Char)
  fullName : List Char

/-- The loop of `FindFile` over the directories of the path; `list` is what `Init` comes to. -/
def walk (list : IsoFileDescriptor → Except Fault (List IsoFileDescriptor)) :
    List (List Char) → List IsoFileDescriptor → IsoFileDescriptor →
      Except Fault (List IsoFileDescriptor × IsoFileDescriptor)
  | [], files, info => .ok (files, info)
  | name :: names, files, _ =>
    match getEntry files name with
    | .error e => .error e
    | .ok info =>
      if info.isFile then .error .fileNotFound
      else
        match list info with
        | .error e => .error e
        | .ok files => walk list names files info

def findFile (list : IsoFileDescriptor → Except Fault (List IsoFileDescriptor))
    (files : List IsoFileDescriptor) (path : Path) : Except Fault IsoFileDescriptor :=
  match walk list path.dirs files .blank with
  | .error e => .error e
  | .ok (files, info) => if path.fullName = [] then .ok info else getEntry files path.fullName

end IsoDirectory

end OmegaRed.CDVD.IsoFS

/-! What the records of a directory are, and when `Init` lists them. -/

namespace OmegaRed.CDVD.IsoFS

open Lib Lib.Memory

section records

variable (ext : Nat → UInt8) (size : Nat)

/-- The record at `p` holds its fixed part and its name, and lies in one sector of the extent. -/
structure WellFormed (p : Nat) : Prop where
  name : 33 + (ext (p + 32)).toNat ≤ (ext p).toNat
  sector : p % sectorLength + (ext p).toNat ≤ sectorLength
  fits : p + (ext p).toNat ≤ size

/-- The records of the extent from `p` on stand at `ps`: a zero length fills up the sector. -/
inductive Lists : Nat → List Nat → Prop
  | done {p : Nat} (h : size ≤ p) : Lists p []
  | pad {p : Nat} {ps : List Nat} (h : p < size) (hzero : ext p = 0)
      (hrest : Lists ((p / sectorLength + 1) * sectorLength) ps) : Lists p ps
  | record {p : Nat} {ps : List Nat} (h : p < size) (hlen : ext p ≠ 0) (hwf : WellFormed ext size p)
      (hrest : Lists (p + (ext p).toNat) ps) : Lists p (p :: ps)

/-- The record at `p`. -/
def recordAt (p : Nat) : IsoFileDescriptor := .load fun i => ext (p + i)

/-- The loop of `Init` leaves off at `p`. -/
def Stops (p : Nat) : Prop := size < p + 4 ∨ ext p = 0

/-- The record at `p` runs over the end of the extent. -/
def Overruns (p : Nat) : Prop := ¬ Stops ext size p ∧ size < p + (ext p).toNat

/-- The record lengths lead from `p` over the records `ps` to `q`, where `End` holds. -/
inductive Chain (End : Nat → Prop) : Nat → List Nat → Nat → Prop
  | stop {p : Nat} (h : End p) : Chain End p [] p
  | record {p q : Nat} {ps : List Nat} (h : ¬ Stops ext size p) (hfit : p + (ext p).toNat ≤ size)
      (hrest : Chain End (p + (ext p).toNat) ps q) : Chain End p (p :: ps) q

/-- The buffer after the records `ps`. -/
def bufferAfter (b : Nat → UInt8) (ps : List Nat) : Nat → UInt8 :=
  ps.foldl (fun b p => store b 0 (load ext p (ext p).toNat)) b

/-- No name that the buffer holds on the way is longer than the buffer. -/
def NamesFit : (Nat → UInt8) → List Nat → Prop
  | _, [] => True
  | b, p :: ps =>
    IsoFileDescriptor.Fits (store b 0 (load ext p (ext p).toNat)) ∧
      NamesFit (store b 0 (load ext p (ext p).toNat)) ps

/-- The descriptors that the buffer gives on the way. -/
def loads : (Nat → UInt8) → List Nat → List IsoFileDescriptor
  | _, [] => []
  | b, p :: ps =>
    .load (store b 0 (load ext p (ext p).toNat)) ::
      loads (store b 0 (load ext p (ext p).toNat)) ps

/-- No record follows `q`, in its sector or in a later one. -/
def Padded (q : Nat) : Prop :=
  (q = size ∨ ext q = 0) ∧
    ∀ k, q < sectorLength * k → sectorLength * k < size → ext (sectorLength * k) = 0

end records

section lists

variable {ext : Nat → UInt8} {size p q : Nat} {ps qs : List Nat}

theorem lt_of_not_stops (h : ¬ Stops ext size p) : p < size ∧ ext p ≠ 0 := by
  rw [Stops, not_or] at h
  exact ⟨by omega, h.2⟩

theorem Lists.unique (h : Lists ext size p ps) (h' : Lists ext size p qs) : ps = qs := by
  induction h generalizing qs with
  | done hge =>
    cases h' with
    | done => rfl
    | pad hlt => omega
    | record hlt => omega
  | pad hlt hzero _ ih =>
    cases h' with
    | done => omega
    | pad _ _ hrest => exact ih hrest
    | record _ hlen => exact absurd hzero hlen
  | record hlt hlen _ _ ih =>
    cases h' with
    | done => omega
    | pad _ hzero => exact absurd hzero hlen
    | record _ _ _ hrest => rw [ih hrest]

theorem Lists.of_not_stops (h : Lists ext size p qs) (hgo : ¬ Stops ext size p) :
    WellFormed ext size p ∧ ∃ rest, qs = p :: rest ∧ Lists ext size (p + (ext p).toNat) rest := by
  obtain ⟨hlt, hlen⟩ := lt_of_not_stops hgo
  cases h with
  | done => omega
  | pad _ hzero => exact absurd hzero hlen
  | record _ _ hwf hrest => exact ⟨hwf, _, rfl, hrest⟩

theorem Lists.of_chain {End : Nat → Prop} (h : Lists ext size p qs)
    (hc : Chain ext size End p ps q) :
    (∀ r ∈ ps, WellFormed ext size r) ∧ ∃ rest, qs = ps ++ rest ∧ Lists ext size q rest := by
  induction hc generalizing qs with
  | stop => exact ⟨fun r hr => absurd hr List.not_mem_nil, qs, rfl, h⟩
  | record hgo _ _ ih =>
    obtain ⟨hwf, rest, rfl, hrest⟩ := h.of_not_stops hgo
    obtain ⟨hall, tail, rfl, htail⟩ := ih hrest
    refine ⟨fun r hr => ?_, tail, rfl, htail⟩
    rcases List.mem_cons.mp hr with rfl | hr
    · exact hwf
    · exact hall r hr

theorem Chain.end_holds {End : Nat → Prop} (hc : Chain ext size End p ps q) : End q := by
  induction hc with
  | stop hend => exact hend
  | record _ _ _ ih => exact ih

theorem not_lists_of_overruns (hc : Chain ext size (Overruns ext size) p ps q) :
    ¬ Lists ext size p qs := by
  intro h
  obtain ⟨_, rest, _, hrest⟩ := h.of_chain hc
  have hover := hc.end_holds
  have hfits := (hrest.of_not_stops hover.1).1.fits
  have hend := hover.2
  omega

theorem Chain.le {End : Nat → Prop} (hc : Chain ext size End p ps q) (hp : p ≤ size) :
    q ≤ size := by
  induction hc with
  | stop => exact hp
  | record _ hfit _ ih => exact ih hfit

theorem lt_nextSector (p : Nat) : p < (p / sectorLength + 1) * sectorLength := by
  simp only [sectorLength]
  omega

theorem Padded.lists (h : Padded ext size q) : Lists ext size q [] := by
  induction hn : size - q using Nat.strong_induction_on generalizing q with
  | _ n ih =>
    rcases Nat.lt_or_ge q size with hlt | hge
    · have hnext := lt_nextSector q
      refine .pad hlt (h.1.resolve_left (by omega)) ?_
      rcases Nat.lt_or_ge ((q / sectorLength + 1) * sectorLength) size with hin | hout
      · have hzero : ext ((q / sectorLength + 1) * sectorLength) = 0 := by
          rw [Nat.mul_comm] at hnext hin ⊢
          exact h.2 _ hnext hin
        exact ih _ (by omega) ⟨.inr hzero, fun k hk => h.2 k (by omega)⟩ rfl
      · exact .done hout
    · exact .done hge

theorem Lists.padded (h : Lists ext size q qs) (hnil : qs = []) (hq : q ≤ size) :
    Padded ext size q := by
  induction h with
  | done hge => exact ⟨.inl (by omega), fun k hk hlt => by omega⟩
  | @pad q qs hlt hzero hrest ih =>
    refine ⟨.inr hzero, fun k hk hin => ?_⟩
    have hsector : q / sectorLength + 1 ≤ k := by
      simp only [sectorLength] at hk ⊢
      omega
    have hle : (q / sectorLength + 1) * sectorLength ≤ size :=
      Nat.le_trans (Nat.mul_le_mul_right _ hsector) (by rw [Nat.mul_comm]; omega)
    obtain ⟨hhere, hlater⟩ := ih hnil hle
    rcases Nat.lt_or_eq_of_le hsector with hmore | heq
    · refine hlater k ?_ hin
      rw [Nat.mul_comm]
      exact Nat.mul_lt_mul_of_pos_left hmore (by decide)
    · rw [Nat.mul_comm, heq] at hhere
      exact hhere.resolve_left (by omega)
  | record => cases hnil

theorem Chain.lists {End : Nat → Prop} (hc : Chain ext size End p ps q)
    (hwf : ∀ r ∈ ps, WellFormed ext size r) (hrest : Lists ext size q []) :
    Lists ext size p ps := by
  induction hc with
  | stop => exact hrest
  | @record p q ps hgo _ _ ih =>
    obtain ⟨hlt, hlen⟩ := lt_of_not_stops hgo
    exact .record hlt hlen (hwf p List.mem_cons_self)
      (ih (fun r hr => hwf r (List.mem_cons_of_mem _ hr)) hrest)

theorem exists_chain (ext : Nat → UInt8) {size p : Nat} (hp : p ≤ size) :
    (∃ ps q, Chain ext size (Stops ext size) p ps q) ∨
      ∃ ps q, Chain ext size (Overruns ext size) p ps q := by
  induction hn : size - p using Nat.strong_induction_on generalizing p with
  | _ n ih =>
    by_cases hstop : Stops ext size p
    · exact .inl ⟨[], p, .stop hstop⟩
    · rcases Nat.lt_or_ge size (p + (ext p).toNat) with hover | hfit
      · exact .inr ⟨[], p, .stop ⟨hstop, hover⟩⟩
      · obtain ⟨hlt, hlen⟩ := lt_of_not_stops hstop
        have hpos : 0 < (ext p).toNat := by
          refine Nat.pos_of_ne_zero fun hzero => hlen ?_
          exact UInt8.toNat.inj hzero
        rcases ih _ (by omega) hfit rfl with ⟨ps, q, hc⟩ | ⟨ps, q, hc⟩
        · exact .inl ⟨_, q, .record hstop hfit hc⟩
        · exact .inr ⟨_, q, .record hstop hfit hc⟩

theorem loadName_congr {d d' : Nat → UInt8} {n : Nat} (h : ∀ i < n, d (33 + i) = d' (33 + i)) :
    IsoFileDescriptor.loadName d n = IsoFileDescriptor.loadName d' n := by
  rw [IsoFileDescriptor.loadName, IsoFileDescriptor.loadName]
  split
  · rename_i hone
    rw [show d 33 = d' 33 from h 0 (by omega)]
  · rw [load_congr h]

theorem descriptor_congr {d d' : Nat → UInt8} (h : ∀ i < 33 + (d 32).toNat, d i = d' i) :
    IsoFileDescriptor.load d = IsoFileDescriptor.load d' := by
  have hcell : ∀ i < 33, d i = d' i := fun i hi => h i (by omega)
  have hword : ∀ a, a + 4 ≤ 33 → Words.loadWord d a = Words.loadWord d' a :=
    fun a ha => Words.loadWord_congr fun i hi => hcell _ (by omega)
  have hname := loadName_congr fun i hi => h (33 + i) (Nat.add_lt_add_left hi 33)
  rw [IsoFileDescriptor.load, IsoFileDescriptor.load, hword 2 (by decide), hword 10 (by decide),
    hname, hcell 32 (by decide), hcell 18 (by decide), hcell 19 (by decide), hcell 20 (by decide),
    hcell 21 (by decide), hcell 22 (by decide), hcell 23 (by decide), hcell 24 (by decide),
    hcell 25 (by decide)]

theorem store_load_cell (b : Nat → UInt8) {i : Nat} (hi : i < (ext p).toNat) :
    store b 0 (load ext p (ext p).toNat) i = ext (p + i) := by
  have hcell := store_of_mem b (a := 0) (getElem?_load ext (a := p) hi)
  rwa [Nat.zero_add] at hcell

/-- A record that holds its name is read from the extent alone, and inside the buffer. -/
theorem load_eq_recordAt (b : Nat → UInt8) (h : 33 + (ext (p + 32)).toNat ≤ (ext p).toNat) :
    IsoFileDescriptor.load (store b 0 (load ext p (ext p).toNat)) = recordAt ext p ∧
      IsoFileDescriptor.Fits (store b 0 (load ext p (ext p).toNat)) := by
  have hname : store b 0 (load ext p (ext p).toNat) 32 = ext (p + 32) :=
    store_load_cell b (by omega)
  have hlen := (ext p).toNat_lt
  refine ⟨descriptor_congr fun i hi => store_load_cell b ?_, ?_⟩
  · rw [hname] at hi
    omega
  · rw [IsoFileDescriptor.Fits, hname]
    simp only [bufferSize]
    omega

theorem loads_of_wellFormed (b : Nat → UInt8) (h : ∀ r ∈ ps, WellFormed ext size r) :
    loads ext b ps = ps.map (recordAt ext) ∧ NamesFit ext b ps := by
  induction ps generalizing b with
  | nil => exact ⟨rfl, trivial⟩
  | cons p ps ih =>
    obtain ⟨hload, hfits⟩ := load_eq_recordAt b (h p List.mem_cons_self).name
    obtain ⟨hloads, hnames⟩ := ih (store b 0 (load ext p (ext p).toNat))
      fun r hr => h r (List.mem_cons_of_mem _ hr)
    exact ⟨by rw [loads, hload, hloads, List.map_cons], hfits, hnames⟩

@[simp] theorem length_loads (b : Nat → UInt8) (ps : List Nat) :
    (loads ext b ps).length = ps.length := by
  induction ps generalizing b with
  | nil => rfl
  | cons p ps ih => rw [loads, List.length_cons, ih, List.length_cons]

end lists

section loop

variable {reader : SectorSource} {entry : IsoFileDescriptor} {pos : Nat} {f : IsoFile}
  {remaining : UInt32}

/-- What `Init` has read from, how much it still counts on, and that it stands at `pos`. -/
structure Standing (reader : SectorSource) (entry : IsoFileDescriptor) (pos : Nat) (f : IsoFile)
    (remaining : UInt32) : Prop where
  at_pos : At reader entry pos f
  remaining_eq : remaining.toNat = entry.size.toNat - pos

theorem lt_four_iff : remaining < 4 ↔ remaining.toNat < 4 := UInt32.lt_iff_toNat_lt

theorem initLoop_stop (b : Nat → UInt8) (files : List IsoFileDescriptor)
    (h : Standing reader entry pos f remaining)
    (hstop : Stops (extent reader entry) entry.size.toNat pos) (fuel : Nat) :
    ∃ sectors, IsoDirectory.initLoop (fuel + 1) f remaining b files = some ⟨.ok files, sectors⟩ ∧
      InExtent entry sectors := by
  have hle := h.at_pos.le
  have hrem := h.remaining_eq
  rw [IsoDirectory.initLoop]
  by_cases hshort : remaining < 4
  · rw [if_pos hshort]
    exact ⟨_, rfl, h.at_pos.sectors⟩
  · rw [if_neg hshort]
    rw [lt_four_iff] at hshort
    have hzero : extent reader entry pos = 0 := hstop.resolve_left (by omega)
    obtain ⟨g, hread, hat, _⟩ := h.at_pos.readByte (by omega)
    rw [hread]
    simp only [hzero, if_true]
    exact ⟨_, rfl, hat.sectors⟩

theorem record_cons {n : Nat} (hn : 0 < n) (ext : Nat → UInt8) :
    ext pos :: load ext (pos + 1) (n - 1) = load ext pos n := by
  have hadd := load_add ext pos 1 (n - 1)
  rw [Nat.add_sub_cancel' hn] at hadd
  exact hadd.symm

/-- A record inside the extent: its bytes come into the buffer, and the loop goes on behind it. -/
theorem initLoop_record (b : Nat → UInt8) (files : List IsoFileDescriptor)
    (h : Standing reader entry pos f remaining)
    (hgo : ¬ Stops (extent reader entry) entry.size.toNat pos)
    (hfit : pos + (extent reader entry pos).toNat ≤ entry.size.toNat) (fuel : Nat) :
    ∃ g remaining', Standing reader entry (pos + (extent reader entry pos).toNat) g remaining' ∧
      IsoDirectory.initLoop (fuel + 1) f remaining b files =
        if IsoFileDescriptor.Fits (store b 0 (load (extent reader entry) pos
          (extent reader entry pos).toNat)) then
          IsoDirectory.initLoop fuel g remaining' (store b 0 (load (extent reader entry) pos
            (extent reader entry pos).toNat)) (files ++ [.load (store b 0 (load
              (extent reader entry) pos (extent reader entry pos).toNat))])
        else some ⟨.error .outOfBuffer, g.sectors⟩ := by
  obtain ⟨hlt, hlen⟩ := lt_of_not_stops hgo
  have hrem := h.remaining_eq
  have hpos : 0 < (extent reader entry pos).toNat :=
    Nat.pos_of_ne_zero fun hzero => hlen (UInt8.toNat.inj hzero)
  have hbyte := (extent reader entry pos).toNat_lt
  obtain ⟨g, hread, hat, _⟩ := h.at_pos.readByte hlt
  obtain ⟨hdata, hend⟩ := hat.read (n := (extent reader entry pos).toNat - 1)
    (by simp only [sectorLength]; omega) (by omega)
  rw [show pos + 1 + ((extent reader entry pos).toNat - 1) =
    pos + (extent reader entry pos).toNat by omega] at hend
  have hsub : (remaining - (extent reader entry pos).toUInt32).toNat =
      entry.size.toNat - (pos + (extent reader entry pos).toNat) := by
    have hwide : (extent reader entry pos).toUInt32.toNat = (extent reader entry pos).toNat :=
      UInt8.toNat_toUInt32 _
    rw [UInt32.toNat_sub_of_le _ _ (UInt32.le_iff_toNat_le.mpr (by omega)), hwide]
    omega
  refine ⟨_, _, ⟨hend, hsub⟩, ?_⟩
  have hshort : ¬ remaining < 4 := by
    rw [lt_four_iff]
    rw [Stops, not_or] at hgo
    omega
  rw [IsoDirectory.initLoop, if_neg hshort, hread]
  simp only [hlen, if_false, hdata, record_cons hpos]

theorem initLoop_over (b : Nat → UInt8) (files : List IsoFileDescriptor)
    (h : Standing reader entry pos f remaining)
    (hover : Overruns (extent reader entry) entry.size.toNat pos) (fuel : Nat) :
    ∃ sectors, (InExtent entry sectors ↔ entry.size.toNat % sectorLength ≠ 0) ∧
      IsoDirectory.initLoop (fuel + 2) f remaining b files =
        if IsoFileDescriptor.Fits (store b 0 (load (extent reader entry) pos
          (entry.size.toNat - pos))) then some ⟨.error .endOfStream, sectors⟩
        else some ⟨.error .outOfBuffer, sectors⟩ := by
  obtain ⟨hgo, hlong⟩ := hover
  obtain ⟨hlt, hlen⟩ := lt_of_not_stops hgo
  have hrem := h.remaining_eq
  have hbyte := (extent reader entry pos).toNat_lt
  obtain ⟨g, hread, hat, hoff⟩ := h.at_pos.readByte hlt
  obtain ⟨hdata, hend, hsectors⟩ := hat.read_over hoff (n := (extent reader entry pos).toNat - 1)
    (by simp only [sectorLength]; omega) (by omega)
  have hwrap : ¬ remaining - (extent reader entry pos).toUInt32 < 4 := by
    have hwide : (extent reader entry pos).toUInt32.toNat = (extent reader entry pos).toNat :=
      UInt8.toNat_toUInt32 _
    have hsize := entry.size.toNat_lt
    rw [lt_four_iff, UInt32.toNat_sub, hwide, hrem]
    omega
  refine ⟨_, hsectors, ?_⟩
  have hshort : ¬ remaining < 4 := by
    rw [lt_four_iff]
    rw [Stops, not_or] at hgo
    omega
  have hcons : extent reader entry pos ::
      load (extent reader entry) (pos + 1) (entry.size.toNat - pos - 1) =
        load (extent reader entry) pos (entry.size.toNat - pos) := record_cons (by omega) _
  rw [show entry.size.toNat - pos - 1 = entry.size.toNat - (pos + 1) by omega] at hcons
  rw [IsoDirectory.initLoop, if_neg hshort, hread]
  simp only [hlen, if_false, hdata, hcons]
  have hstream : ((g.read ((extent reader entry pos).toNat - 1)).2).readByte = none := by
    rw [IsoFile.readByte, if_pos hend]
  rw [IsoDirectory.initLoop, if_neg hwrap, hstream]

theorem initLoop_chain {End : Nat → Prop} {q : Nat} {ps : List Nat} (b : Nat → UInt8)
    (files : List IsoFileDescriptor) (hc : Chain (extent reader entry) entry.size.toNat End pos ps q)
    (h : Standing reader entry pos f remaining) (fuel : Nat) :
    (NamesFit (extent reader entry) b ps → ∃ g remaining', Standing reader entry q g remaining' ∧
      IsoDirectory.initLoop (ps.length + fuel) f remaining b files =
        IsoDirectory.initLoop fuel g remaining' (bufferAfter (extent reader entry) b ps)
          (files ++ loads (extent reader entry) b ps)) ∧
      (¬ NamesFit (extent reader entry) b ps → ∃ sectors,
        IsoDirectory.initLoop (ps.length + fuel) f remaining b files =
          some ⟨.error .outOfBuffer, sectors⟩) := by
  induction hc generalizing f remaining b files with
  | @stop p =>
    refine ⟨fun _ => ⟨f, remaining, h, ?_⟩, fun hno => absurd trivial hno⟩
    simp only [List.length_nil, Nat.zero_add, loads, List.append_nil]
    rfl
  | @record p q ps hgo hfit _ ih =>
    obtain ⟨g, remaining', hnext, hloop⟩ :=
      initLoop_record b files h hgo hfit (ps.length + fuel)
    rw [List.length_cons, Nat.add_right_comm, hloop]
    obtain ⟨hgood, hbad⟩ := ih (store b 0 (load (extent reader entry) p
      (extent reader entry p).toNat)) (files ++ [.load (store b 0 (load
        (extent reader entry) p (extent reader entry p).toNat))]) hnext
    constructor
    · rintro ⟨hfits, hnames⟩
      rw [if_pos hfits]
      obtain ⟨g', remaining'', hstand, heq⟩ := hgood hnames
      refine ⟨g', remaining'', hstand, ?_⟩
      rw [heq, List.append_assoc]
      rfl
    · intro hno
      by_cases hfits : IsoFileDescriptor.Fits (store b 0 (load (extent reader entry) p
          (extent reader entry p).toNat))
      · rw [if_pos hfits]
        exact hbad fun hnames => hno ⟨hfits, hnames⟩
      · rw [if_neg hfits]
        exact ⟨_, rfl⟩

theorem Standing.init (reader : SectorSource) (entry : IsoFileDescriptor) :
    Standing reader entry 0 (.init reader entry) entry.size :=
  ⟨.init reader entry, (Nat.sub_zero _).symm⟩

theorem length_le_of_chain {ext : Nat → UInt8} {size q : Nat} {End : Nat → Prop} {ps : List Nat}
    (hc : Chain ext size End pos ps q) : pos + ps.length ≤ q := by
  induction hc with
  | stop => exact Nat.le_refl _
  | @record p _ ps hgo _ _ ih =>
    obtain ⟨_, hlen⟩ := lt_of_not_stops hgo
    have hpos : 0 < (ext p).toNat :=
      Nat.pos_of_ne_zero fun hzero => hlen (UInt8.toNat.inj hzero)
    rw [List.length_cons]
    omega

end loop

section correct

variable (reader : SectorSource) (entry : IsoFileDescriptor) (b : Nat → UInt8)

/-- `Init` stops, asks for no sector outside of the extent, stays in its buffer, and gives the
records of the extent in order, or an error where one of them is malformed. -/
def Correct : Prop :=
  ∃ o, IsoDirectory.init (entry.size.toNat + 2) reader entry b = some o ∧
    InExtent entry o.sectors ∧
    (∀ ps, Lists (extent reader entry) entry.size.toNat 0 ps →
      o.files = .ok (ps.map (recordAt (extent reader entry)))) ∧
    ((∀ ps, ¬ Lists (extent reader entry) entry.size.toNat 0 ps) →
      ∃ e, o.files = .error e ∧ e ≠ .outOfBuffer)

/-- The lengths lead over well-formed records to the padding behind the last one. -/
def Contiguous : Prop :=
  ∃ ps q, Chain (extent reader entry) entry.size.toNat
      (Stops (extent reader entry) entry.size.toNat) 0 ps q ∧
    (∀ r ∈ ps, WellFormed (extent reader entry) entry.size.toNat r) ∧
    Padded (extent reader entry) entry.size.toNat q

/-- The lengths lead over the end of an extent that ends inside a sector, and no name on the way
is longer than the buffer. -/
def CutShort : Prop :=
  ∃ ps q, Chain (extent reader entry) entry.size.toNat
      (Overruns (extent reader entry) entry.size.toNat) 0 ps q ∧
    entry.size.toNat % sectorLength ≠ 0 ∧ NamesFit (extent reader entry) b ps ∧
    IsoFileDescriptor.Fits (store (bufferAfter (extent reader entry) b ps) 0
      (load (extent reader entry) q (entry.size.toNat - q)))

variable {reader entry b} {ps : List Nat} {q : Nat}

theorem init_of_stops (hc : Chain (extent reader entry) entry.size.toNat
    (Stops (extent reader entry) entry.size.toNat) 0 ps q) :
    ∃ sectors, InExtent entry sectors ∧
      (NamesFit (extent reader entry) b ps →
        IsoDirectory.init (entry.size.toNat + 2) reader entry b =
          some ⟨.ok (loads (extent reader entry) b ps), sectors⟩) ∧
      (¬ NamesFit (extent reader entry) b ps → ∃ sectors,
        IsoDirectory.init (entry.size.toNat + 2) reader entry b =
          some ⟨.error .outOfBuffer, sectors⟩) := by
  have hlen := length_le_of_chain hc
  have hq := hc.le (Nat.zero_le _)
  rw [Nat.zero_add] at hlen
  have hfuel : entry.size.toNat + 2 = ps.length + (entry.size.toNat + 1 - ps.length + 1) := by omega
  obtain ⟨hgood, hbad⟩ := initLoop_chain b [] hc (.init reader entry)
    (entry.size.toNat + 1 - ps.length + 1)
  rw [← hfuel] at hgood hbad
  by_cases hnames : NamesFit (extent reader entry) b ps
  · obtain ⟨g, remaining', hstand, hloop⟩ := hgood hnames
    obtain ⟨sectors, hstop, hin⟩ := initLoop_stop (bufferAfter (extent reader entry) b ps)
      ([] ++ loads (extent reader entry) b ps) hstand hc.end_holds
      (entry.size.toNat + 1 - ps.length)
    exact ⟨sectors, hin, fun _ => hloop.trans hstop, fun hno => absurd hnames hno⟩
  · exact ⟨[], fun n hn => absurd hn List.not_mem_nil, fun hyes => absurd hyes hnames, hbad⟩

theorem init_of_overruns (hc : Chain (extent reader entry) entry.size.toNat
    (Overruns (extent reader entry) entry.size.toNat) 0 ps q) :
    ∃ sectors, (InExtent entry sectors ↔ entry.size.toNat % sectorLength ≠ 0) ∧
      (NamesFit (extent reader entry) b ps ∧
          IsoFileDescriptor.Fits (store (bufferAfter (extent reader entry) b ps) 0
            (load (extent reader entry) q (entry.size.toNat - q))) →
        IsoDirectory.init (entry.size.toNat + 2) reader entry b =
          some ⟨.error .endOfStream, sectors⟩) ∧
      (¬ (NamesFit (extent reader entry) b ps ∧
          IsoFileDescriptor.Fits (store (bufferAfter (extent reader entry) b ps) 0
            (load (extent reader entry) q (entry.size.toNat - q)))) → ∃ sectors,
        IsoDirectory.init (entry.size.toNat + 2) reader entry b =
          some ⟨.error .outOfBuffer, sectors⟩) := by
  have hlen := length_le_of_chain hc
  have hq := hc.le (Nat.zero_le _)
  rw [Nat.zero_add] at hlen
  have hfuel : entry.size.toNat + 2 = ps.length + (entry.size.toNat - ps.length + 2) := by omega
  obtain ⟨hgood, hbad⟩ := initLoop_chain b [] hc (.init reader entry)
    (entry.size.toNat - ps.length + 2)
  rw [← hfuel] at hgood hbad
  by_cases hnames : NamesFit (extent reader entry) b ps
  · obtain ⟨g, remaining', hstand, hloop⟩ := hgood hnames
    obtain ⟨sectors, hin, hover⟩ := initLoop_over (bufferAfter (extent reader entry) b ps)
      ([] ++ loads (extent reader entry) b ps) hstand hc.end_holds
      (entry.size.toNat - ps.length)
    rw [hover] at hloop
    refine ⟨sectors, hin, fun hfits => ?_, fun hno => ?_⟩
    · rw [if_pos hfits.2] at hloop
      exact hloop
    · rw [if_neg fun hfits => hno ⟨hnames, hfits⟩] at hloop
      exact ⟨sectors, hloop⟩
  · obtain ⟨sectors, hloop⟩ := hbad hnames
    by_cases haligned : entry.size.toNat % sectorLength = 0
    · obtain ⟨k, hk⟩ := Nat.dvd_of_mod_eq_zero haligned
      exact ⟨[entry.lba + .ofNat k], iff_of_false (At.not_inExtent_next hk) (not_not_intro haligned),
        fun hyes => absurd hyes.1 hnames, fun _ => ⟨sectors, hloop⟩⟩
    · exact ⟨[], iff_of_true (fun n hn => absurd hn List.not_mem_nil) haligned,
        fun hyes => absurd hyes.1 hnames, fun _ => ⟨sectors, hloop⟩⟩

theorem correct_of_contiguous (h : Contiguous reader entry) : Correct reader entry b := by
  obtain ⟨ps, q, hc, hwf, hpad⟩ := h
  obtain ⟨hloads, hnames⟩ := loads_of_wellFormed b hwf
  obtain ⟨sectors, hin, hgood, _⟩ := init_of_stops (b := b) hc
  have hlists := hc.lists hwf hpad.lists
  refine ⟨_, hgood hnames, hin, fun ps' hps' => ?_, fun hno => absurd hlists (hno ps)⟩
  rw [hps'.unique hlists, hloads]

theorem correct_of_cutShort (h : CutShort reader entry b) : Correct reader entry b := by
  obtain ⟨ps, q, hc, hpartial, hfits⟩ := h
  obtain ⟨sectors, hin, hgood, _⟩ := init_of_overruns (b := b) hc
  exact ⟨_, hgood hfits, hin.mpr hpartial,
    fun ps' hps' => absurd hps' (not_lists_of_overruns hc),
    fun _ => ⟨.endOfStream, rfl, by decide⟩⟩

theorem contiguous_of_correct (h : Correct reader entry b)
    (hc : Chain (extent reader entry) entry.size.toNat
      (Stops (extent reader entry) entry.size.toNat) 0 ps q) : Contiguous reader entry := by
  obtain ⟨o, ho, _, hlisted, hmalformed⟩ := h
  obtain ⟨sectors, _, hgood, hbad⟩ := init_of_stops (b := b) hc
  have hnames : NamesFit (extent reader entry) b ps := by
    by_contra hno
    obtain ⟨sectors', hout⟩ := hbad hno
    obtain rfl := Option.some.inj (ho.symm.trans hout)
    by_cases hps : ∃ ps', Lists (extent reader entry) entry.size.toNat 0 ps'
    · obtain ⟨ps', hps'⟩ := hps
      cases hlisted ps' hps'
    · obtain ⟨e, he, hne⟩ := hmalformed fun ps' hps' => hps ⟨ps', hps'⟩
      cases he
      exact hne rfl
  obtain rfl := Option.some.inj (ho.symm.trans (hgood hnames))
  by_cases hps : ∃ ps', Lists (extent reader entry) entry.size.toNat 0 ps'
  · obtain ⟨ps', hps'⟩ := hps
    obtain ⟨hwf, rest, rfl, hrest⟩ := hps'.of_chain hc
    have hsame := congrArg List.length (Except.ok.inj (hlisted _ hps'))
    rw [length_loads, List.length_map, List.length_append] at hsame
    have hnil : rest = [] := List.eq_nil_of_length_eq_zero (by omega)
    exact ⟨ps, q, hc, hwf, hrest.padded hnil (hc.le (Nat.zero_le _))⟩
  · obtain ⟨e, he, _⟩ := hmalformed fun ps' hps' => hps ⟨ps', hps'⟩
    cases he

theorem cutShort_of_correct (h : Correct reader entry b)
    (hc : Chain (extent reader entry) entry.size.toNat
      (Overruns (extent reader entry) entry.size.toNat) 0 ps q) : CutShort reader entry b := by
  obtain ⟨o, ho, hsectors, _, hmalformed⟩ := h
  obtain ⟨sectors, hin, hgood, hbad⟩ := init_of_overruns (b := b) hc
  obtain ⟨e, he, hne⟩ := hmalformed fun ps' hps' => not_lists_of_overruns hc hps'
  by_cases hfits : NamesFit (extent reader entry) b ps ∧
      IsoFileDescriptor.Fits (store (bufferAfter (extent reader entry) b ps) 0
        (load (extent reader entry) q (entry.size.toNat - q)))
  · obtain rfl := Option.some.inj (ho.symm.trans (hgood hfits))
    exact ⟨ps, q, hc, hin.mp hsectors, hfits⟩
  · obtain ⟨sectors', hout⟩ := hbad hfits
    obtain rfl := Option.some.inj (ho.symm.trans hout)
    cases he
    exact absurd rfl hne

theorem correct_iff : Correct reader entry b ↔ Contiguous reader entry ∨ CutShort reader entry b := by
  constructor
  · intro h
    rcases exists_chain (extent reader entry) (Nat.zero_le entry.size.toNat) with
      ⟨ps, q, hc⟩ | ⟨ps, q, hc⟩
    · exact .inl (contiguous_of_correct h hc)
    · exact .inr (cutShort_of_correct h hc)
  · rintro (h | h)
    · exact correct_of_contiguous h
    · exact correct_of_cutShort h

end correct

end OmegaRed.CDVD.IsoFS
