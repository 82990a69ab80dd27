import Mathlib.Data.Finset.Card
import Mathlib.Order.Interval.Finset.Nat
import Dosfs.Fs.Fat16.Steps

/-!
# The root directory

Where a scan of the root directory stops, and what deleting and creating an
entry do to the volume. A scan reads the sectors of the directory in order, so
the clock at which it reads the sector of a slot is determined by the slot.
-/

namespace Dosfs.Fat16

open Foundation

variable {env : Env} {fs : Fat16Fs} {ata : Ata} {test : Memory → Nat → Bool}

/-- A test of a directory entry that looks at nothing else in its buffer. -/
def EntryTest (test : Memory → Nat → Bool) : Prop :=
  ∀ (bytes : Memory) (lba i : Nat),
    test (bytes.window (512 * lba)) i = test bytes (16 * lba + i)

theorem entryTest_hasName (name : CString) : EntryTest (hasName name) := by
  intro bytes lba i
  rw [hasName, hasName, entryName_window]

theorem entryTest_isVacant : EntryTest isVacant := by
  intro bytes lba i
  rw [isVacant, isVacant, entryHead_window]

theorem hasName_iff {name : CString} {buf : Memory} {i : Nat} :
    hasName name buf i = true ↔ entryName buf i = fat16ParseName name := by
  rw [hasName, beq_iff_eq, memcmp_eq_zero_iff (by simp)]

theorem isVacant_iff {buf : Memory} {i : Nat} : isVacant buf i = true ↔ ¬ IsLive buf i := by
  simp only [isVacant, IsLive, Bool.or_eq_true, beq_iff_eq]
  tauto

/-- A scan of the root directory that starts at clock `t` with sector `lo` can
read the sector of the slot. -/
def Readable (env : Env) (lo t slot : Nat) : Prop :=
  env.fault (t + (slot / 16 - lo)) (.read (slot / 16) 1) = false

/-- A scan of `count` sectors from sector `lo` on, started at clock `t`, stops at
the first slot that passes the test in a sector it can read. -/
structure StopsAt (env : Env) (test : Memory → Nat → Bool) (bytes : Memory)
    (lo count t slot : Nat) : Prop where
  low : lo ≤ slot / 16
  high : slot / 16 < lo + count
  passes : test bytes slot = true
  readable : Readable env lo t slot
  first : ∀ slot', lo ≤ slot' / 16 → slot' < slot → test bytes slot' = true →
    ¬ Readable env lo t slot'

/-- No sector the scan can read has a slot that passes the test. -/
def FindsNone (env : Env) (test : Memory → Nat → Bool) (bytes : Memory)
    (lo count t : Nat) : Prop :=
  ∀ slot, lo ≤ slot / 16 → slot / 16 < lo + count → test bytes slot = true →
    ¬ Readable env lo t slot

theorem StopsAt.unique {bytes : Memory} {lo count t slot slot' : Nat}
    (h : StopsAt env test bytes lo count t slot)
    (h' : StopsAt env test bytes lo count t slot') : slot = slot' := by
  rcases Nat.lt_trichotomy slot slot' with hlt | heq | hgt
  · exact absurd h.readable (h'.first slot h.low hlt h.passes)
  · exact heq
  · exact absurd h'.readable (h.first slot' h'.low hgt h'.passes)

/-- The sectors after the first are read one tick later. -/
private theorem readable_succ {lo t slot : Nat} (h : lo + 1 ≤ slot / 16) :
    Readable env (lo + 1) (t + 1) slot ↔ Readable env lo t slot := by
  have hclock : t + 1 + (slot / 16 - (lo + 1)) = t + (slot / 16 - lo) := by omega
  rw [Readable, Readable, hclock]

/-- What remains to be ruled out when the first sector of a scan is skipped. -/
private def SkipsFirst (env : Env) (test : Memory → Nat → Bool) (bytes : Memory)
    (lo t : Nat) : Prop :=
  ∀ slot, slot / 16 = lo → test bytes slot = true → ¬ Readable env lo t slot

private theorem StopsAt.skip {bytes : Memory} {lo count t slot : Nat}
    (h : StopsAt env test bytes (lo + 1) count (t + 1) slot)
    (hskip : SkipsFirst env test bytes lo t) :
    StopsAt env test bytes lo (count + 1) t slot where
  low := by have := h.low; omega
  high := by have := h.high; omega
  passes := h.passes
  readable := (readable_succ h.low).mp h.readable
  first slot' hlow hlt hpass := by
    by_cases heq : slot' / 16 = lo
    · exact hskip slot' heq hpass
    · rw [← readable_succ (by omega)]
      exact h.first slot' (by omega) hlt hpass

private theorem FindsNone.skip {bytes : Memory} {lo count t : Nat}
    (h : FindsNone env test bytes (lo + 1) count (t + 1))
    (hskip : SkipsFirst env test bytes lo t) : FindsNone env test bytes lo (count + 1) t := by
  intro slot hlow hhigh hpass
  by_cases heq : slot / 16 = lo
  · exact hskip slot heq hpass
  · rw [← readable_succ (by omega)]
    exact h slot (by omega) (by omega) hpass

/-- What `rootScan` reports about the slot at which the scan stops. -/
def hitAt (fs : Fat16Fs) (lo slot : Nat) (ata : Ata) : Option RootHit × Ata :=
  (some ⟨slot / 16 - fs.rootStart, slot % 16, ata.bytes.window (512 * (slot / 16))⟩,
    { ata with clock := ata.clock + (slot / 16 - lo) + 1 })

/-- A readable sector with a match ends the scan at its first match. -/
private theorem rootScan_hit (htest : EntryTest test) (todo s : Nat) (ata : Ata)
    (hread : env.fault ata.clock (.read (fs.rootStart + s) 1) = false) {i : Nat}
    (hfind : (List.range 16).find? (test (ata.bytes.window (512 * (fs.rootStart + s)))) = some i) :
    StopsAt env test ata.bytes (fs.rootStart + s) (todo + 1) ata.clock
        (16 * (fs.rootStart + s) + i) ∧
      rootScan env fs test (todo + 1) s ata =
        hitAt fs (fs.rootStart + s) (16 * (fs.rootStart + s) + i) ata := by
  have hwindow (i : Nat) := htest ata.bytes (fs.rootStart + s) i
  obtain ⟨hpass, hi, hbefore⟩ := List.find?_range_eq_some.mp hfind
  rw [List.mem_range] at hi
  have hdiv : (16 * (fs.rootStart + s) + i) / 16 = fs.rootStart + s := by omega
  have hmod : (16 * (fs.rootStart + s) + i) % 16 = i := by omega
  refine ⟨⟨?_, ?_, ?_, ?_, ?_⟩, ?_⟩
  · omega
  · omega
  · rwa [hwindow] at hpass
  · rw [Readable, hdiv, Nat.sub_self]
    exact hread
  · intro slot' hlow hlt hpass'
    have hnot := hbefore (slot' - 16 * (fs.rootStart + s)) (by omega)
    rw [hwindow, show 16 * (fs.rootStart + s) + (slot' - 16 * (fs.rootStart + s)) =
      slot' by omega, hpass'] at hnot
    exact absurd hnot (by decide)
  · rw [rootScan, ataReadSectors_ok hread, hitAt]
    simp only [hfind, hdiv, hmod, Nat.sub_self, Nat.add_zero, Nat.add_sub_cancel_left]

private theorem rootScan_cases (htest : EntryTest test) (todo s : Nat) (ata : Ata) :
    (FindsNone env test ata.bytes (fs.rootStart + s) todo ata.clock ∧
      rootScan env fs test todo s ata = (none, { ata with clock := ata.clock + todo })) ∨
    ∃ slot, StopsAt env test ata.bytes (fs.rootStart + s) todo ata.clock slot ∧
      rootScan env fs test todo s ata = hitAt fs (fs.rootStart + s) slot ata := by
  induction todo generalizing s ata with
  | zero => exact Or.inl ⟨fun slot hlow hhigh => by omega, rfl⟩
  | succ todo ih =>
      -- A sector that yields nothing moves the scan on, whether it was unreadable or had no match.
      have hskip (hscan : rootScan env fs test (todo + 1) s ata =
            rootScan env fs test todo (s + 1) { ata with clock := ata.clock + 1 })
          (hnone : SkipsFirst env test ata.bytes (fs.rootStart + s) ata.clock) :
          (FindsNone env test ata.bytes (fs.rootStart + s) (todo + 1) ata.clock ∧
            rootScan env fs test (todo + 1) s ata =
              (none, { ata with clock := ata.clock + (todo + 1) })) ∨
          ∃ slot, StopsAt env test ata.bytes (fs.rootStart + s) (todo + 1) ata.clock slot ∧
            rootScan env fs test (todo + 1) s ata = hitAt fs (fs.rootStart + s) slot ata := by
        rcases ih (s + 1) { ata with clock := ata.clock + 1 } with ⟨hall, heq⟩ | ⟨slot, hstop, heq⟩
        · refine Or.inl ⟨hall.skip hnone, ?_⟩
          rw [hscan, heq]
          simp only [Nat.add_assoc, Nat.add_comm 1]
        · refine Or.inr ⟨slot, hstop.skip hnone, ?_⟩
          have hlow := hstop.low
          have hclock : ata.clock + 1 + (slot / 16 - (fs.rootStart + (s + 1))) =
              ata.clock + (slot / 16 - (fs.rootStart + s)) := by omega
          rw [hscan, heq, hitAt, hitAt]
          simp only [hclock]
      cases hread : env.fault ata.clock (.read (fs.rootStart + s) 1) with
      -- An unreadable sector is passed over without an error.
      | true =>
          apply hskip
          · rw [rootScan, ataReadSectors_fault hread]
          · intro slot heq _
            rw [Readable, heq, Nat.sub_self, Nat.add_zero, hread]
            decide
      | false =>
          have hwindow (i : Nat) := htest ata.bytes (fs.rootStart + s) i
          cases hfind : (List.range 16).find? (test (ata.bytes.window (512 * (fs.rootStart + s))))
            with
          | none =>
              apply hskip
              · rw [rootScan, ataReadSectors_ok hread]
                simp only [hfind]
              · intro slot heq hpass
                have hnot := List.find?_eq_none.mp hfind (slot % 16)
                  (List.mem_range.mpr (by omega))
                rw [hwindow, show 16 * (fs.rootStart + s) + slot % 16 = slot by omega] at hnot
                exact absurd hpass hnot
          | some i =>
              exact Or.inr ⟨_, rootScan_hit htest todo s ata hread hfind⟩

/-- A scan of the root directory of the volume. -/
theorem rootScan_root (htest : EntryTest test) (ata : Ata) :
    (FindsNone env test ata.bytes fs.rootStart fs.rootSectors ata.clock ∧
      rootScan env fs test fs.rootSectors 0 ata =
        (none, { ata with clock := ata.clock + fs.rootSectors })) ∨
    ∃ slot, StopsAt env test ata.bytes fs.rootStart fs.rootSectors ata.clock slot ∧
      rootScan env fs test fs.rootSectors 0 ata = hitAt fs fs.rootStart slot ata :=
  rootScan_cases htest fs.rootSectors 0 ata

/-! ## Deleting and creating entries -/

theorem StopsAt.inRoot {bytes : Memory} {t slot : Nat}
    (h : StopsAt env test bytes fs.rootStart fs.rootSectors t slot) : fs.InRoot slot := by
  have hlow := h.low
  have hhigh := h.high
  exact ⟨by omega, by omega⟩

/-- A name that does not start with the deletion mark matches live entries only. -/
theorem isLive_of_hasName {name : CString} {bytes : Memory} {slot : Nat}
    (hname : name.bytes.head? ≠ some 0xE5) (h : hasName name bytes slot = true) :
    IsLive bytes slot := by
  have hentry := hasName_iff.mp h
  constructor
  · exact fat16ParseName_ne_zero name _ (hentry ▸ mem_entryName_head slot)
  · intro hdeleted
    apply fat16ParseName_head_ne hname
    rw [← hentry, entryName_head, hdeleted]

/-- The length of a chain of data clusters is bounded by their number. -/
theorem Chained.length_le {bytes : Memory} {chains : Nat → List Nat} (h : Chained fs bytes chains)
    {slot : Nat} (hslot : fs.IsLiveIn bytes slot) : (chains slot).length ≤ fs.totalClusters := by
  rcases h.chain slot hslot with ⟨-, hnil⟩ | hchain
  · simp [hnil]
  · have hsub : (chains slot).toFinset ⊆ Finset.Ico 2 (2 + fs.totalClusters) := by
      intro c hc
      have hin := hchain.inside_of_mem (List.mem_toFinset.mp hc)
      exact Finset.mem_Ico.mpr ⟨hin.1, hin.2.1⟩
    have hcard := Finset.card_le_card hsub
    rw [List.toFinset_card_of_nodup hchain.nodup, Nat.card_Ico] at hcard
    omega

/-- Freeing the chain of a slot; `freeTrace` says which writes reach the drive. -/
theorem freeEntryChain_eq {chains : Nat → List Nat} (hlayout : Layout fs)
    {bytes : Memory} (hchained : Chained fs bytes chains) {slot : Nat}
    (hslot : fs.IsLiveIn bytes slot) {fuel : Nat} (hfuel : 65536 ≤ fuel) (t : Nat) :
    freeEntryChain env fs fuel (entryFirstCluster bytes slot) ⟨bytes, t⟩ =
      some ⟨zeroFat fs bytes (freeTrace env fs (chains slot) t).1,
        (freeTrace env fs (chains slot) t).2⟩ := by
  have hlength := hchained.length_le hslot
  have htotal := hlayout.totalClusters
  rcases hchained.chain slot hslot with ⟨hvacant, hnil⟩ | hchain
  · have hvacant : entryFirstCluster bytes slot < 2 := hvacant
    rw [freeEntryChain, if_neg (by omega), hnil]
    rfl
  · rw [freeEntryChain, if_pos hchain.head_inside.1]
    exact fat16FreeClusterChain_eq hchain (by omega)

/-- The cells that deleting the entry in a slot frees, when the search for the
entry starts at clock `t`, and the clock at which the entry is marked. -/
def deleteTrace (env : Env) (fs : Fat16Fs) (chains : Nat → List Nat) (t slot : Nat) :
    List Nat × Nat :=
  freeTrace env fs (chains slot) (t + (slot / 16 - fs.rootStart) + 1)

/-- What `fat16_delete_file` does to the driver's state: nothing if it finds no
entry; otherwise it frees cells of the entry's chain and then marks the entry,
unless that write fails. -/
inductive Deletes (env : Env) (name : CString) (chains : Nat → List Nat) (s : Fat16State) :
    Int → Fat16State → Prop
  | missing (clock : Nat)
      (hnone : FindsNone env (hasName name) s.ata.bytes s.fs.rootStart s.fs.rootSectors
        s.ata.clock) :
      Deletes env name chains s (-1) { s with ata := ⟨s.ata.bytes, clock⟩ }
  | unmarked (slot clock : Nat)
      (hstop : StopsAt env (hasName name) s.ata.bytes s.fs.rootStart s.fs.rootSectors
        s.ata.clock slot)
      (hfault : env.fault (deleteTrace env s.fs chains s.ata.clock slot).2
        (.write (slot / 16) 1) = true) :
      Deletes env name chains s (-1) { s with ata :=
        ⟨zeroFat s.fs s.ata.bytes (deleteTrace env s.fs chains s.ata.clock slot).1, clock⟩ }
  | marked (slot clock : Nat)
      (hstop : StopsAt env (hasName name) s.ata.bytes s.fs.rootStart s.fs.rootSectors
        s.ata.clock slot)
      (hok : env.fault (deleteTrace env s.fs chains s.ata.clock slot).2
        (.write (slot / 16) 1) = false) :
      Deletes env name chains s 0
        ⟨{ s.fs with files := dropFile name s.fs.files },
          ⟨(zeroFat s.fs s.ata.bytes
            (deleteTrace env s.fs chains s.ata.clock slot).1).storeByte (32 * slot) 0xE5, clock⟩⟩

/-- The cells freed for a slot are data clusters, so the directory is unchanged
when the buffer read before them is written back. -/
theorem deleteTrace_inside {chains : Nat → List Nat} {bytes : Memory}
    (hchained : Chained fs bytes chains) {slot : Nat} (hslot : fs.IsLiveIn bytes slot) {t c : Nat}
    (hc : c ∈ (deleteTrace env fs chains t slot).1) : fs.clusterKind.inside c := by
  have hmem := freeTrace_subset hc
  exact (hchained.chain_of_mem hslot hmem).inside_of_mem hmem

theorem zeroFat_apply_of_rootStart_le (hlayout : Layout fs) {bytes : Memory} {cells : List Nat}
    (hcells : ∀ c ∈ cells, fs.clusterKind.inside c) {x : Nat} (hx : 512 * fs.rootStart ≤ x) :
    zeroFat fs bytes cells x = bytes x := by
  apply zeroFat_apply_of_le
  intro c hc
  have haddr := hlayout.fatAddr_lt (hcells c hc)
  omega

theorem fat16DeleteFile_deletes (env : Env) {chains : Nat → List Nat} {s : Fat16State}
    (hlayout : Layout s.fs) (hchained : Chained s.fs s.ata.bytes chains) {name : CString}
    (hname : name.bytes.head? ≠ some 0xE5) {fuel : Nat} (hfuel : 65536 ≤ fuel) :
    ∃ ret s', fat16DeleteFile env fuel name s = some (ret, s') ∧
      Deletes env name chains s ret s' := by
  unfold fat16DeleteFile
  rw [hlayout.mounted]
  rcases rootScan_root (entryTest_hasName name) s.ata with ⟨hnone, hscan⟩ | ⟨slot, hstop, hscan⟩
  · rw [hscan]
    exact ⟨_, _, rfl, .missing _ hnone⟩
  · have hslot : s.fs.IsLiveIn s.ata.bytes slot :=
      ⟨hstop.inRoot, isLive_of_hasName hname hstop.passes⟩
    have hsector : s.fs.rootStart + (slot / 16 - s.fs.rootStart) = slot / 16 := by
      have := hstop.low
      omega
    have hentry : 16 * (slot / 16) + slot % 16 = slot := by omega
    have hfree : freeEntryChain env s.fs fuel (entryFirstCluster s.ata.bytes slot)
          ⟨s.ata.bytes, s.ata.clock + (slot / 16 - s.fs.rootStart) + 1⟩ =
        some ⟨zeroFat s.fs s.ata.bytes (deleteTrace env s.fs chains s.ata.clock slot).1,
          (deleteTrace env s.fs chains s.ata.clock slot).2⟩ :=
      freeEntryChain_eq hlayout hchained hslot hfuel _
    rw [hscan]
    simp only [hitAt, entryFirstCluster_window, hentry, hfree, hsector, Bool.not_true,
      Bool.false_eq_true, if_false, Option.bind_eq_bind, Option.bind_some]
    cases hwrite : env.fault (deleteTrace env s.fs chains s.ata.clock slot).2
        (.write (slot / 16) 1) with
    | true =>
        rw [ataWriteSectors_fault hwrite]
        exact ⟨_, _, rfl, .unmarked slot _ hstop hwrite⟩
    | false =>
        rw [ataWriteSectors_ok hwrite]
        have hwindow : s.ata.bytes.window (512 * (slot / 16)) =
            (zeroFat s.fs s.ata.bytes (deleteTrace env s.fs chains s.ata.clock slot).1).window
              (512 * (slot / 16)) := by
          funext k
          have hlow := hstop.low
          exact (zeroFat_apply_of_rootStart_le hlayout
            (fun c hc => deleteTrace_inside hchained hslot hc)
            (show 512 * s.fs.rootStart ≤ 512 * (slot / 16) + k by omega)).symm
        refine ⟨_, _, rfl, ?_⟩
        rw [hwindow, Memory.storeByte, Memory.overwrite_window_overwrite (by omega),
          show 512 * (slot / 16) + 32 * (slot % 16) = 32 * slot by omega]
        exact .marked slot _ hstop hwrite

/-- What entering a file in the directory does: nothing if no slot is found or
the write fails; otherwise it fills a slot that was unused or deleted. -/
inductive Enters (env : Env) (name : CString) (size first : Nat) (s : Fat16State) :
    Int → Fat16State → Prop
  | failed (clock : Nat)
      (hfail : FindsNone env isVacant s.ata.bytes s.fs.rootStart s.fs.rootSectors s.ata.clock ∨
        ∃ t lba, env.fault t (.write lba 1) = true) :
      Enters env name size first s (-1) { s with ata := ⟨s.ata.bytes, clock⟩ }
  | filled (slot clock : Nat) (hslot : s.fs.InRoot slot) (hvacant : ¬ IsLive s.ata.bytes slot)
      (hfirst : ∀ slot', s.fs.InRoot slot' → slot' < slot → ¬ IsLive s.ata.bytes slot' →
        ¬ Readable env s.fs.rootStart s.ata.clock slot') :
      Enters env name size first s (toInt size)
        ⟨{ s.fs with files := addFile name size first s.fs.files },
          ⟨putEntry s.ata.bytes slot (fat16ParseName name) size first, clock⟩⟩

theorem window_putEntry (bytes : Memory) (lba i : Nat) (name : List UInt8) (size first : Nat) :
    (putEntry bytes (16 * lba + i) name size first).window (512 * lba) =
      putEntry (bytes.window (512 * lba)) i name size first := by
  have haddr : 32 * (16 * lba + i) = 512 * lba + 32 * i := by omega
  simp only [putEntry, Memory.storeLe, Memory.storeByte, Memory.storeList, haddr, Nat.add_assoc,
    Memory.window_overwrite]

theorem createEntry_enters (name : CString) (size first : Nat) (s : Fat16State) :
    Enters env name size first s (createEntry env name size first s).1
      (createEntry env name size first s).2 := by
  unfold createEntry
  rcases rootScan_root entryTest_isVacant s.ata with ⟨hnone, hscan⟩ | ⟨slot, hstop, hscan⟩
  · rw [hscan]
    exact .failed _ (Or.inl hnone)
  · have hlow := hstop.low
    have hsector : s.fs.rootStart + (slot / 16 - s.fs.rootStart) = slot / 16 := by omega
    rw [hscan]
    simp only [hitAt, hsector]
    cases hwrite : env.fault (s.ata.clock + (slot / 16 - s.fs.rootStart) + 1)
        (.write (slot / 16) 1) with
    | true =>
        rw [ataWriteSectors_fault hwrite]
        exact .failed _ (Or.inr ⟨_, _, hwrite⟩)
    | false =>
        rw [ataWriteSectors_ok hwrite]
        have hput := window_putEntry s.ata.bytes (slot / 16) (slot % 16) (fat16ParseName name)
          size first
        rw [show 16 * (slot / 16) + slot % 16 = slot by omega] at hput
        have hback : s.ata.bytes.overwrite (512 * (slot / 16)) (512 * 1)
              ((putEntry s.ata.bytes slot (fat16ParseName name) size first).window
                (512 * (slot / 16))) =
            putEntry s.ata.bytes slot (fat16ParseName name) size first :=
          Memory.overwrite_window_eq fun x hx =>
            putEntry_apply_of_outside (by simp) (by omega)
        rw [← hput]
        dsimp only
        rw [hback]
        refine .filled slot _ hstop.inRoot (isVacant_iff.mp hstop.passes) ?_
        intro slot' hslot' hlt hvacant
        have hlow' := hslot'.1
        exact hstop.first slot' (by omega) hlt (isVacant_iff.mpr hvacant)

end Dosfs.Fat16
