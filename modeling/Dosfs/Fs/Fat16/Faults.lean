import Dosfs.Fs.Fat16.Consistency

/-!
# Failing transfers

`fat16_delete_file` frees the clusters of an entry before it marks the entry. If
that last write fails, a live entry is left that points at free clusters. No
other pattern of failing transfers breaks the volume.
-/

namespace Dosfs.Fat16

open Foundation

variable {env : Env} {chains : Nat → List Nat}

/-- After an orphaning deletion a live entry reaches a free cluster. -/
theorem Deletes.reaches_free {name : CString} {s s' : Fat16State} {ret : Int}
    (hlayout : Layout s.fs) (hchained : Chained s.fs s.ata.bytes chains)
    (hname : name.bytes.head? ≠ some 0xE5) (h : Deletes env name chains s ret s')
    (horphans : Orphans env name chains s) :
    ∃ slot c, s'.fs.IsLiveIn s'.ata.bytes slot ∧
      Reaches s'.fs.clusterKind (fatEntry s'.fs s'.ata.bytes)
        (entryFirstCluster s'.ata.bytes slot) c ∧ fatEntry s'.fs s'.ata.bytes c = 0x0000 := by
  obtain ⟨slot, hstop, hfreed, hfault⟩ := horphans
  have hslot : s.fs.IsLiveIn s.ata.bytes slot :=
    ⟨hstop.inRoot, isLive_of_hasName hname hstop.passes⟩
  cases h with
  | missing clock hnone =>
      exact absurd hstop.readable (hnone slot hstop.low hstop.high hstop.passes)
  | marked slot' clock hstop' hok =>
      rw [hstop.unique hstop'] at hfault
      exact absurd hfault (by rw [hok]; decide)
  | unmarked slot' clock hstop' _ =>
      obtain rfl := hstop.unique hstop'
      obtain ⟨cell, hcell⟩ := List.exists_mem_of_ne_nil _ hfreed
      have hcells : ∀ c ∈ (deleteTrace env s.fs chains s.ata.clock slot).1,
          s.fs.clusterKind.inside c := fun c hc => deleteTrace_inside hchained hslot hc
      have hsame : SameSlot (zeroFat s.fs s.ata.bytes
          (deleteTrace env s.fs chains s.ata.clock slot).1) s.ata.bytes slot :=
        sameSlot_zeroFat hlayout hcells hslot.1
      have hchain := hchained.chain_of_mem hslot (freeTrace_subset hcell)
      have hkept (x : Nat) (hx : x ∉ (deleteTrace env s.fs chains s.ata.clock slot).1) :
          fatEntry s.fs (zeroFat s.fs s.ata.bytes
            (deleteTrace env s.fs chains s.ata.clock slot).1) x = fatEntry s.fs s.ata.bytes x := by
        rw [fatEntry_zeroFat, if_neg hx]
      obtain ⟨c, hc, hreach⟩ := hchain.exists_reaches_of_cut
        ⟨cell, freeTrace_subset hcell, hcell⟩ hkept
      refine ⟨slot, c, ⟨hslot.1, hsame.isLive.mpr hslot.2⟩, ?_, ?_⟩
      · rw [hsame.firstCluster]
        exact hreach
      · change fatEntry s.fs (zeroFat s.fs s.ata.bytes _) c = _
        rw [fatEntry_zeroFat, if_pos hc]

/-- Entering a file does not repair such an entry: either its free cluster stays
free, or the new file takes it over. -/
theorem Stores.not_consistent {name : CString} {data : List UInt8} {s s' : Fat16State} {ret : Int}
    (hlayout : Layout s.fs) (h : Stores env name data s ret s') (hret : ret ≠ -1) {slot c : Nat}
    (hslot : s.fs.IsLiveIn s.ata.bytes slot)
    (hreach : Reaches s.fs.clusterKind (fatEntry s.fs s.ata.bytes)
      (entryFirstCluster s.ata.bytes slot) c)
    (hfree : fatEntry s.fs s.ata.bytes c = 0x0000)
    (hname : name.bytes.head? ≠ some 0xE5) : ¬ Consistent s'.fs s'.ata.bytes := by
  cases h with
  | refused => exact absurd rfl hret
  | rolledBack => exact absurd rfl hret
  | entered first clock allocated ret s' hdata hfirst henters =>
      cases henters with
      | failed => exact absurd rfl hret
      | filled new clock hnew hvacant =>
          set put := putEntry allocated new (fat16ParseName name) 0 first with hput
          have hlength := fat16ParseName_length name
          -- the drive after the allocation
          have hsame₀ := hfirst.sameSlot hlayout hslot.1
          have hlive : IsLive allocated slot := hsame₀.isLive.mpr hslot.2
          have hne : slot ≠ new := by
            rintro rfl
            exact hvacant hlive
          have hsame : SameSlot put allocated slot := sameSlot_putEntry hlength hne
          have hother {x : Nat} (hx : s.fs.clusterKind.inside x) (hxfirst : x ≠ first) :
              fatEntry s.fs put x = fatEntry s.fs s.ata.bytes x :=
            (fatEntry_putEntry hlayout hnew hlength hx).trans (hfirst.fatEntry_of_ne hxfirst)
          have hreach' : Reaches s.fs.clusterKind (fatEntry s.fs put)
              (entryFirstCluster put slot) c := by
            rw [hsame.firstCluster, hsame₀.firstCluster]
            refine hreach.of_agree fun y hy hnext => hother hy ?_
            rintro rfl
            rcases hfirst with ⟨rfl, -⟩ | ⟨-, hzero, -⟩
            · exact absurd hy.1 (by decide)
            · rw [hzero] at hnext
              exact absurd hnext.1 (by decide)
          have hslot' : s.fs.IsLiveIn put slot := ⟨hslot.1, hsame.isLive.mpr hlive⟩
          intro hconsistent
          by_cases hc : c = first
          · subst hc
            have hhigh : c < 0xFFF8 := hreach.inside.2.2
            have hentry : entryFirstCluster put new = c := by
              rw [hput, entryFirstCluster_putEntry, Nat.mod_eq_of_lt (by omega)]
            have hnew' : s.fs.IsLiveIn put new :=
              ⟨hnew, isLive_of_hasName hname (hasName_iff.mpr (entryName_putEntry hlength))⟩
            refine hne (hconsistent.not_shared slot new c hslot' hnew' hreach' ?_)
            change Reaches s.fs.clusterKind (fatEntry s.fs put) (entryFirstCluster put new) c
            rw [hentry]
            exact .start hreach.inside
          · refine hconsistent.not_free slot c hslot' hreach' ?_
            exact (hother hreach.inside hc).trans hfree

/-- Exactly the deletions that free clusters and then fail to mark their entry
break the volume; a command that reports success after one never repairs it. -/
theorem fat16_consistent_iff_not_orphans (env : Env) {s : Fat16State}
    (hlayout : Layout s.fs) (hchained : Chained s.fs s.ata.bytes chains) {name : CString}
    (hname : name.bytes.head? ≠ some 0xE5) {fuel : Nat} (hfuel : 65536 ≤ fuel) :
    ((∀ cmd : Command, cmd.name = name → ∃ ret s', cmd.exec env fuel s = some (ret, s') ∧
        Consistent s'.fs s'.ata.bytes) ↔ ¬ Orphans env name chains s) ∧
      ∀ (cmd : Command) (ret : Int) (s' : Fat16State), cmd.name = name →
        cmd.exec env fuel s = some (ret, s') → (cmd = .delete name ∨ ret ≠ -1) →
        (Consistent s'.fs s'.ata.bytes ↔ ¬ Orphans env name chains s) := by
  have hkept (cmd : Command) (hcmd : cmd.name = name) (hmarked : ¬ Orphans env name chains s) :
      ∃ ret s', cmd.exec env fuel s = some (ret, s') ∧ Consistent s'.fs s'.ata.bytes := by
    subst hcmd
    obtain ⟨ret, s', heq, -, chains', hchained'⟩ :=
      cmd.exec_chained hlayout hchained hname hfuel hmarked
    exact ⟨ret, s', heq, hchained'.consistent⟩
  have hbroken (cmd : Command) (ret : Int) (s' : Fat16State) (hcmd : cmd.name = name)
      (heq : cmd.exec env fuel s = some (ret, s')) (hret : cmd = .delete name ∨ ret ≠ -1)
      (horphans : Orphans env name chains s) : ¬ Consistent s'.fs s'.ata.bytes := by
    subst hcmd
    obtain ⟨ret', s'', heq', hcases⟩ := cmd.exec_cases env hlayout hchained hname hfuel
    obtain ⟨rfl, rfl⟩ : ret' = ret ∧ s'' = s' := by simpa [heq'] using heq
    rcases hcases with ⟨-, hdeletes⟩ | ⟨hnot, data, ret₁, s₁, hdeletes, hstores⟩
    · obtain ⟨slot, c, hslot, hreach, hfree⟩ :=
        hdeletes.reaches_free hlayout hchained hname horphans
      exact fun hconsistent => hconsistent.not_free slot c hslot hreach hfree
    · obtain ⟨slot, c, hslot, hreach, hfree⟩ :=
        hdeletes.reaches_free hlayout hchained hname horphans
      exact hstores.not_consistent (hdeletes.layout hlayout) (hret.resolve_left hnot) hslot hreach
        hfree hname
  refine ⟨⟨fun hall horphans => ?_, fun hmarked cmd hcmd => hkept cmd hcmd hmarked⟩, ?_⟩
  · obtain ⟨ret, s', heq, hconsistent⟩ := hall (.delete name) rfl
    exact hbroken (.delete name) ret s' rfl heq (Or.inl rfl) horphans hconsistent
  · intro cmd ret s' hcmd heq hret
    refine ⟨fun hconsistent horphans => hbroken cmd ret s' hcmd heq hret horphans hconsistent, ?_⟩
    intro hmarked
    obtain ⟨ret', s'', heq', hconsistent⟩ := hkept cmd hcmd hmarked
    obtain ⟨rfl, rfl⟩ : ret' = ret ∧ s'' = s' := by simpa [heq'] using heq
    exact hconsistent


/-! ## A deletion that orphans a cluster -/

/-- The geometry of a small formatted drive. -/
def smallFs : Fat16Fs := (Fat16Bpb.decode (formatted 16 7)).geometry

theorem smallFs_eq :
    smallFs = ⟨⟨512, 1, 1, 1, 16, 7, 1, 0⟩, 1, 2, 3, 4, true, []⟩ := by
  rw [smallFs, decode_formatted (by decide) (by decide)]
  rfl

/-- The small drive with one file, `A`, of one byte in cluster 2. -/
def oneFileState : Fat16State where
  fs := { smallFs with files := [⟨⟨[0x41], by simp⟩, 1, 2, 0x20, true⟩] }
  ata := ⟨putEntry (setFat smallFs (formatted 16 7) 2 0xFFFF) 32
    (fat16ParseName ⟨[0x41], by simp⟩) 1 2, 0⟩

theorem oneFileState_layout : Layout oneFileState.fs :=
  (layout_formatted (by decide) (by decide)).with_files _

theorem oneFileState_chained : Chained oneFileState.fs oneFileState.ata.bytes
    (Function.update (fun _ => []) 32 [2]) := by
  have hlayout : Layout smallFs := layout_formatted (by decide) (by decide)
  have hblank : Chained smallFs (formatted 16 7) (fun _ => []) :=
    chained_of_blank fun _ => formatted_blank (by decide) (by decide)
  have hinside : smallFs.clusterKind.inside 2 := by
    rw [smallFs_eq]
    exact ⟨by decide, by decide, by decide⟩
  have hfree : fatEntry smallFs (formatted 16 7) 2 = 0x0000 := by
    rw [smallFs_eq]
    decide
  have hslot : smallFs.InRoot 32 := by
    rw [smallFs_eq]
    decide
  have hput := hblank.put hlayout (Or.inr ⟨hinside, hfree, rfl⟩) hslot
    (fat16ParseName_length ⟨[0x41], by simp⟩) 1
  rw [if_neg (by decide)] at hput
  exact hput.with_files _

theorem oneFileState_wellFormed : WellFormed oneFileState.fs oneFileState.ata.bytes := by
  have hroot : oneFileState.fs.rootStart = 2 := by
    simp only [oneFileState, smallFs_eq]
  -- every slot but the first is unused
  have hunused (slot : Nat) (hslot : 32 < slot) : entryHead oneFileState.ata.bytes slot = 0x00 := by
    have hsame : oneFileState.ata.bytes (32 * slot) = setFat smallFs (formatted 16 7) 2 0xFFFF _ :=
      putEntry_apply_of_outside (by simp) (by omega)
    have haddr : 512 * smallFs.fatStart + 2 * 2 + 2 ≤ 32 * slot := by
      rw [smallFs_eq]
      simp only
      omega
    rw [entryHead, hsame, setFat_apply_of_le haddr]
    exact formatted_apply_of_le (by omega)
  have hname : hasName ⟨[0x41], by simp⟩ oneFileState.ata.bytes 32 = true :=
    hasName_iff.mpr (entryName_putEntry (by simp))
  have hlive : IsLive oneFileState.ata.bytes 32 := isLive_of_hasName (by decide) hname
  have hslot : oneFileState.fs.InRoot 32 := by
    simp only [Fat16Fs.InRoot, oneFileState, smallFs_eq]
    decide
  have hchain := oneFileState_chained.chain_of_mem ⟨hslot, hlive⟩
    (x := 2) (by rw [Function.update_self]; exact List.mem_cons_self)
  rw [Function.update_self] at hchain
  exact wellFormed_of_single oneFileState_layout hslot (by rw [hroot]) hlive
    (fun slot _ => hunused slot) hchain

/-- The drive fails once, on the transfer with the given number. -/
def failsAt (t : Nat) : Env := ⟨fun t' _ => t' == t, fun _ => false⟩

/-- Deleting the file, the write of the directory sector fails. -/
theorem oneFileState_orphans : Orphans (failsAt 4) ⟨[0x41], by simp⟩
    (Function.update (fun _ => []) 32 [2]) oneFileState := by
  have hroot : oneFileState.fs.rootStart = 2 := by
    simp only [oneFileState, smallFs_eq]
  have hsectors : oneFileState.fs.rootSectors = 1 := by
    simp only [oneFileState, smallFs_eq, Fat16Fs.rootSectors]
  have htrace : deleteTrace (failsAt 4) oneFileState.fs (Function.update (fun _ => []) 32 [2])
      oneFileState.ata.clock 32 = ([2], 4) := by
    rw [deleteTrace, hroot, Function.update_self]
    rfl
  refine ⟨32, ⟨?_, ?_, ?_, ?_, ?_⟩, ?_, ?_⟩
  · rw [hroot]
  · rw [hroot, hsectors]
    decide
  · exact hasName_iff.mpr (entryName_putEntry (by simp))
  · rw [Readable, hroot]
    rfl
  · intro slot' hlow hlt
    rw [hroot] at hlow
    omega
  · rw [htrace]
    decide
  · rw [htrace]
    rfl

/-- One failing write is enough to leave a live entry with a free cluster. -/
theorem fat16_delete_can_orphan :
    WellFormed oneFileState.fs oneFileState.ata.bytes ∧
      ∃ ret s', fat16DeleteFile (failsAt 4) 65536 ⟨[0x41], by simp⟩ oneFileState =
        some (ret, s') ∧ ¬ Consistent s'.fs s'.ata.bytes := by
  refine ⟨oneFileState_wellFormed, ?_⟩
  obtain ⟨ret, s', heq, hdeletes⟩ := fat16DeleteFile_deletes (failsAt 4) oneFileState_layout
    oneFileState_chained (show (⟨[0x41], by simp⟩ : CString).bytes.head? ≠ some 0xE5 by decide)
    (le_refl 65536)
  refine ⟨ret, s', heq, fun hconsistent => ?_⟩
  obtain ⟨slot, c, hslot, hreach, hfree⟩ := hdeletes.reaches_free oneFileState_layout
    oneFileState_chained (by decide) oneFileState_orphans
  exact hconsistent.not_free slot c hslot hreach hfree

/-- The same volume with a failure elsewhere. -/
theorem fat16_consistent_iff_not_orphans_oneFile :
    ((∀ cmd : Command, cmd.name = ⟨[0x41], by simp⟩ →
        ∃ ret s', cmd.exec (failsAt 3) 65536 oneFileState = some (ret, s') ∧
          Consistent s'.fs s'.ata.bytes) ↔
      ¬ Orphans (failsAt 3) ⟨[0x41], by simp⟩ (Function.update (fun _ => []) 32 [2])
        oneFileState) ∧
      ∀ (cmd : Command) (ret : Int) (s' : Fat16State), cmd.name = ⟨[0x41], by simp⟩ →
        cmd.exec (failsAt 3) 65536 oneFileState = some (ret, s') →
        (cmd = .delete ⟨[0x41], by simp⟩ ∨ ret ≠ -1) →
        (Consistent s'.fs s'.ata.bytes ↔
          ¬ Orphans (failsAt 3) ⟨[0x41], by simp⟩ (Function.update (fun _ => []) 32 [2])
            oneFileState) :=
  fat16_consistent_iff_not_orphans (failsAt 3) oneFileState_layout oneFileState_chained
    (by decide) (le_refl 65536)

end Dosfs.Fat16
