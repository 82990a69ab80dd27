import Dosfs.Foundation.Run
import Dosfs.Fs.Fat16.Mount
import Dosfs.Fs.Fat16.Write

/-!
# Consistency of the volume

The chains of the live entries stay a forest under every operation of the
driver, with one exception: a deletion that frees clusters and then fails to
mark the entry leaves a live entry that points at free clusters. On a drive
without I/O errors there is no exception, so every run keeps the forest.
-/

namespace Dosfs.Fat16

open Foundation

variable {env : Env} {fs : Fat16Fs} {bytes bytes' : Memory} {chains : Nat → List Nat}

/-- No live entry reaches a free cluster, and no two reach a common one. -/
structure Consistent (fs : Fat16Fs) (bytes : Memory) : Prop where
  not_free : ∀ slot c, fs.IsLiveIn bytes slot →
    Reaches fs.clusterKind (fatEntry fs bytes) (entryFirstCluster bytes slot) c →
    fatEntry fs bytes c ≠ 0x0000
  not_shared : ∀ slot slot' c, fs.IsLiveIn bytes slot → fs.IsLiveIn bytes slot' →
    Reaches fs.clusterKind (fatEntry fs bytes) (entryFirstCluster bytes slot) c →
    Reaches fs.clusterKind (fatEntry fs bytes) (entryFirstCluster bytes slot') c →
    slot = slot'

/-- In a forest, what an entry reaches is its chain. -/
theorem Chained.mem_of_reaches (h : Chained fs bytes chains) {slot c : Nat}
    (hslot : fs.IsLiveIn bytes slot)
    (hreach : Reaches fs.clusterKind (fatEntry fs bytes) (entryFirstCluster bytes slot) c) :
    c ∈ chains slot := by
  rcases h.chain slot hslot with ⟨hvacant, -⟩ | hchain
  · -- a walk from a vacant head never starts
    have hlow : entryFirstCluster bytes slot < 2 := hvacant
    have hhigh : 2 ≤ entryFirstCluster bytes slot := hreach.head_inside.1
    omega
  · exact hchain.mem_iff_reaches.mpr hreach

/-- No cell on a chain is free. -/
theorem Chained.fatEntry_ne_zero (h : Chained fs bytes chains) {slot c : Nat}
    (hslot : fs.IsLiveIn bytes slot) (hc : c ∈ chains slot) : fatEntry fs bytes c ≠ 0x0000 := by
  rcases h.next_inside_or_ended hslot hc with hinside | hended
  · have hlow : 2 ≤ fatEntry fs bytes c := hinside.1
    omega
  · have hlow : 0xFFF8 ≤ fatEntry fs bytes c := hended
    omega

theorem Chained.consistent (h : Chained fs bytes chains) : Consistent fs bytes where
  not_free slot c hslot hreach := h.fatEntry_ne_zero hslot (h.mem_of_reaches hslot hreach)
  not_shared slot slot' c hslot hslot' hreach hreach' := by
    by_contra hne
    exact h.disjoint slot slot' hslot hslot' hne (h.mem_of_reaches hslot hreach)
      (h.mem_of_reaches hslot' hreach')

/-- A free cluster is on no chain. -/
theorem Chained.notMem_of_free (h : Chained fs bytes chains) {slot c : Nat}
    (hslot : fs.IsLiveIn bytes slot) (hfree : fatEntry fs bytes c = 0x0000) :
    c ∉ chains slot :=
  fun hc => h.fatEntry_ne_zero hslot hc hfree

/-- A change of the FAT and of the data area, outside the chains. -/
theorem Chained.frame (h : Chained fs bytes chains)
    (hslots : ∀ slot, fs.InRoot slot → SameSlot bytes' bytes slot)
    (hfat : ∀ slot, fs.IsLiveIn bytes slot → ∀ c ∈ chains slot,
      fatEntry fs bytes' c = fatEntry fs bytes c) : Chained fs bytes' chains := by
  have hlive (slot : Nat) (hslot : fs.IsLiveIn bytes' slot) : fs.IsLiveIn bytes slot :=
    ⟨hslot.1, (hslots slot hslot.1).isLive.mp hslot.2⟩
  exact h.restrict hlive (fun slot hslot => (hslots slot hslot.1).firstCluster)
    fun slot hslot => hfat slot (hlive slot hslot)

/-- Freeing clusters and marking a slot deleted changes no other slot. -/
theorem sameSlot_mark (hlayout : Layout fs) {freed : List Nat}
    (hfreed : ∀ c ∈ freed, fs.clusterKind.inside c) {slot slot' : Nat} (hslot' : fs.InRoot slot')
    (hne : slot' ≠ slot) :
    SameSlot ((zeroFat fs bytes freed).storeByte (32 * slot) 0xE5) bytes slot' := by
  intro x hlow hhigh
  rw [Memory.storeByte_of_ne (by omega)]
  exact sameSlot_zeroFat hlayout hfreed hslot' x hlow hhigh

theorem not_isLive_mark {slot : Nat} : ¬ IsLive (bytes.storeByte (32 * slot) 0xE5) slot :=
  fun hlive => hlive.2 Memory.storeByte_same

/-- Freeing cells of one entry and then marking it deleted. -/
theorem Chained.mark (hlayout : Layout fs) (h : Chained fs bytes chains) {slot : Nat}
    (hslot : fs.IsLiveIn bytes slot) {freed : List Nat} (hfreed : ∀ c ∈ freed, c ∈ chains slot) :
    Chained fs ((zeroFat fs bytes freed).storeByte (32 * slot) 0xE5) chains := by
  have hinside : ∀ c ∈ freed, fs.clusterKind.inside c := fun c hc =>
    (h.chain_of_mem hslot (hfreed c hc)).inside_of_mem (hfreed c hc)
  have hother {slot' : Nat}
      (hslot' : fs.IsLiveIn ((zeroFat fs bytes freed).storeByte (32 * slot) 0xE5) slot') :
      slot' ≠ slot ∧
        SameSlot ((zeroFat fs bytes freed).storeByte (32 * slot) 0xE5) bytes slot' := by
    have hne : slot' ≠ slot := by
      rintro rfl
      exact not_isLive_mark hslot'.2
    exact ⟨hne, sameSlot_mark hlayout hinside hslot'.1 hne⟩
  have hlive (slot' : Nat)
      (hslot' : fs.IsLiveIn ((zeroFat fs bytes freed).storeByte (32 * slot) 0xE5) slot') :
      fs.IsLiveIn bytes slot' :=
    ⟨hslot'.1, (hother hslot').2.isLive.mp hslot'.2⟩
  refine h.restrict hlive (fun slot' hslot' => (hother hslot').2.firstCluster) ?_
  intro slot' hslot' c hc
  have hdisjoint := h.disjoint slot slot' hslot (hlive slot' hslot') (hother hslot').1.symm
  have hc' := (h.chain_of_mem (hlive slot' hslot') hc).inside_of_mem hc
  have hroot := hslot.1.1
  rw [fatEntry_congr_of_lt hlayout (fun x hx => Memory.storeByte_of_ne (by omega)) hc',
    fatEntry_zeroFat, if_neg fun hmem => hdisjoint (hfreed c hmem) hc]

/-- The deletion frees clusters of an entry and then fails to mark it. -/
def Orphans (env : Env) (name : CString) (chains : Nat → List Nat) (s : Fat16State) : Prop :=
  ∃ slot, StopsAt env (hasName name) s.ata.bytes s.fs.rootStart s.fs.rootSectors s.ata.clock slot ∧
    (deleteTrace env s.fs chains s.ata.clock slot).1 ≠ [] ∧
    env.fault (deleteTrace env s.fs chains s.ata.clock slot).2 (.write (slot / 16) 1) = true

theorem not_orphans_faultless (name : CString) (s : Fat16State) :
    ¬ Orphans Env.faultless name chains s := by
  rintro ⟨slot, -, -, hfault⟩
  exact absurd hfault (by simp [Env.faultless])

/-- Unless it orphans clusters, a deletion keeps the chains of what is left. -/
theorem Deletes.chained {name : CString} {s s' : Fat16State} {ret : Int}
    (hlayout : Layout s.fs) (hchained : Chained s.fs s.ata.bytes chains)
    (hname : name.bytes.head? ≠ some 0xE5) (h : Deletes env name chains s ret s')
    (hmarked : ¬ Orphans env name chains s) : Chained s'.fs s'.ata.bytes chains := by
  cases h with
  | missing => exact hchained
  | unmarked slot clock hstop hfault =>
      have hnil : (deleteTrace env s.fs chains s.ata.clock slot).1 = [] := by
        by_contra hne
        exact hmarked ⟨slot, hstop, hne, hfault⟩
      rw [hnil]
      exact hchained
  | marked slot clock hstop hok =>
      exact hchained.mark hlayout ⟨hstop.inRoot, isLive_of_hasName hname hstop.passes⟩
        fun c hc => freeTrace_subset hc

theorem Chained.with_files (h : Chained fs bytes chains) (files : List Fat16File) :
    Chained { fs with files } bytes chains :=
  h

theorem Deletes.layout {name : CString} {s s' : Fat16State} {ret : Int}
    (hlayout : Layout s.fs) (h : Deletes env name chains s ret s') : Layout s'.fs := by
  cases h with
  | missing => exact hlayout
  | unmarked => exact hlayout
  | marked => exact hlayout.with_files _

/-- Allocation takes a cluster that is on no chain. -/
theorem Chained.allocated (hlayout : Layout fs) (h : Chained fs bytes chains) {cluster : Nat}
    (halloc : Allocated fs bytes cluster bytes') : Chained fs bytes' chains := by
  rcases halloc with ⟨-, rfl⟩ | ⟨hinside, hfree, rfl⟩
  · exact h
  · refine h.frame (fun slot hslot => sameSlot_setFat hlayout hinside hslot) ?_
    intro slot hslot c hc
    rw [fatEntry_setFat, if_neg]
    rintro rfl
    exact h.notMem_of_free hslot hfree hc

/-- The entry touches the root directory only, so the forest of the others is the one the
allocation left. -/
theorem Chained.put_others (hlayout : Layout fs) (h : Chained fs bytes chains) {first : Nat}
    (halloc : Allocated fs bytes first bytes') {slot : Nat} (hslot : fs.InRoot slot)
    {name : List UInt8} (hlength : name.length = 11) (size : Nat) :
    Forest fs.clusterKind (fatEntry fs (putEntry bytes' slot name size first))
      (fs.IsLiveIn bytes') (entryFirstCluster bytes') chains := by
  have hallocated := h.allocated hlayout halloc
  exact hallocated.restrict (fun _ hlive => hlive) (fun _ _ => rfl) fun slot' hslot' c hc =>
    fatEntry_putEntry hlayout hslot hlength ((hallocated.chain_of_mem hslot' hc).inside_of_mem hc)

/-- Entering a file whose first cluster has just been allocated. -/
theorem Chained.put (hlayout : Layout fs) (h : Chained fs bytes chains) {first : Nat}
    (halloc : Allocated fs bytes first bytes') {slot : Nat} (hslot : fs.InRoot slot)
    {name : List UInt8} (hlength : name.length = 11) (size : Nat) :
    Chained fs (putEntry bytes' slot name size first)
      (Function.update chains slot (if first < 2 then [] else [first])) := by
  have hsame {slot' : Nat} (hne : slot' ≠ slot) :
      SameSlot (putEntry bytes' slot name size first) bytes' slot' := sameSlot_putEntry hlength hne
  have hfat {c : Nat} (hc : fs.clusterKind.inside c) :
      fatEntry fs (putEntry bytes' slot name size first) c = fatEntry fs bytes' c :=
    fatEntry_putEntry hlayout hslot hlength hc
  have hkept := h.put_others hlayout halloc hslot hlength size
  have hlive (slot' : Nat)
      (hslot' : fs.IsLiveIn (putEntry bytes' slot name size first) slot') (hne : slot' ≠ slot) :
      fs.IsLiveIn bytes' slot' :=
    ⟨hslot'.1, (hsame hne).isLive.mp hslot'.2⟩
  have hhead (slot' : Nat)
      (_ : fs.IsLiveIn (putEntry bytes' slot name size first) slot') (hne : slot' ≠ slot) :
      entryFirstCluster (putEntry bytes' slot name size first) slot' =
        entryFirstCluster bytes' slot' :=
    (hsame hne).firstCluster
  -- With no cluster the chain is empty; else it is the fresh cluster, which is in no chain yet.
  rcases halloc with ⟨rfl, rfl⟩ | ⟨hinside, hfree, rfl⟩
  · refine hkept.insert hlive hhead (Or.inl ⟨?_, rfl⟩) fun _ _ => List.disjoint_nil_right _
    rw [entryFirstCluster_putEntry]
    exact Nat.zero_lt_two
  · have hfirst : entryFirstCluster
        (putEntry (setFat fs bytes first 0xFFFF) slot name size first) slot = first := by
      have hhigh : first < 0xFFF8 := hinside.2.2
      rw [entryFirstCluster_putEntry, Nat.mod_eq_of_lt (by omega)]
    have hend : fatEntry fs (putEntry (setFat fs bytes first 0xFFFF) slot name size first) first =
        0xFFFF := by
      rw [hfat hinside, fatEntry_setFat, if_pos rfl]
    have howned : Chain fs.clusterKind
        (fatEntry fs (putEntry (setFat fs bytes first 0xFFFF) slot name size first)) first
        [first] := chain_single hinside hend
    have hchain : Chain fs.clusterKind
        (fatEntry fs (putEntry (setFat fs bytes first 0xFFFF) slot name size first))
        (entryFirstCluster (putEntry (setFat fs bytes first 0xFFFF) slot name size first) slot)
        [first] := by
      rwa [hfirst]
    rw [if_neg (Nat.not_lt.mpr hinside.1)]
    refine hkept.insert hlive hhead (Or.inr hchain) fun slot' hslot' => ?_
    rw [List.disjoint_singleton]
    refine h.notMem_of_free ⟨hslot'.1, ?_⟩ hfree
    exact (sameSlot_setFat hlayout hinside hslot'.1).isLive.mp hslot'.2

/-- What follows the deletion in `fat16_write_file` keeps the volume a forest,
whichever transfers fail. -/
theorem Stores.chained {name : CString} {data : List UInt8} {s s' : Fat16State} {ret : Int}
    (hlayout : Layout s.fs) (hchained : Chained s.fs s.ata.bytes chains)
    (h : Stores env name data s ret s') : ∃ chains', Chained s'.fs s'.ata.bytes chains' := by
  cases h with
  | refused => exact ⟨chains, hchained⟩
  | rolledBack cluster clock written freed hdata hinside hfree hwritten hfreed =>
      have hcells : ∀ c ∈ freed, s.fs.clusterKind.inside c := fun c hc => hfreed c hc ▸ hinside
      refine ⟨chains, hchained.frame (fun slot hslot x hlow hhigh => ?_) fun slot hslot c hc => ?_⟩
      · have haddr := hlayout.slotAddr_lt hslot
        change zeroFat s.fs written freed x = _
        rw [sameSlot_zeroFat hlayout hcells hslot x hlow hhigh, hwritten x (by omega)]
        exact sameSlot_setFat hlayout hinside hslot x hlow hhigh
      · have hne : c ≠ cluster := by
          rintro rfl
          exact hchained.notMem_of_free hslot hfree hc
        have hc' := (hchained.chain_of_mem hslot hc).inside_of_mem hc
        have hbelow : ∀ x < 512 * s.fs.rootStart,
            written x = setFat s.fs s.ata.bytes cluster 0xFFFF x := by
          intro x hx
          have hdataStart := hlayout.dataStart
          exact hwritten x (by omega)
        change fatEntry s.fs (zeroFat s.fs written freed) c = _
        rw [fatEntry_zeroFat, if_neg fun hmem => hne (hfreed c hmem),
          fatEntry_congr_of_lt hlayout hbelow hc', fatEntry_setFat, if_neg hne]
  | entered first clock allocated ret s' hdata hfirst henters =>
      cases henters with
      | failed => exact ⟨chains, hchained.allocated hlayout hfirst⟩
      | filled slot clock hslot => exact ⟨_, hchained.put hlayout hfirst hslot (by simp) 0⟩

/-- Deleting and storing change the table of files but not the geometry. -/
theorem Deletes.fs_eq {name : CString} {s s' : Fat16State} {ret : Int}
    (h : Deletes env name chains s ret s') : ∃ files, s'.fs = { s.fs with files } := by
  cases h with
  | missing => exact ⟨s.fs.files, rfl⟩
  | unmarked => exact ⟨s.fs.files, rfl⟩
  | marked => exact ⟨_, rfl⟩

theorem Stores.fs_eq {name : CString} {data : List UInt8} {s s' : Fat16State} {ret : Int}
    (h : Stores env name data s ret s') : ∃ files, s'.fs = { s.fs with files } := by
  cases h with
  | refused => exact ⟨s.fs.files, rfl⟩
  | rolledBack => exact ⟨s.fs.files, rfl⟩
  | entered first clock allocated ret s' hdata hfirst henters =>
      cases henters with
      | failed => exact ⟨s.fs.files, rfl⟩
      | filled => exact ⟨_, rfl⟩

/-! ## Commands -/

/-- The operations that change the volume. -/
inductive Command
  | write (name : CString) (data : List UInt8)
  | create (name : CString)
  | delete (name : CString)
  deriving DecidableEq

namespace Command

def name : Command → CString
  | write name _ => name
  | create name => name
  | delete name => name

def exec (env : Env) (fuel : Nat) : Command → Fat16State → Option (Int × Fat16State)
  | write name data => fat16WriteFile env fuel name data
  | create name => fat16CreateFile env fuel name
  | delete name => fat16DeleteFile env fuel name

/-- Every command deletes its name first; a write then stores the data. -/
theorem exec_cases (env : Env) (cmd : Command) {s : Fat16State} (hlayout : Layout s.fs)
    (hchained : Chained s.fs s.ata.bytes chains) (hname : cmd.name.bytes.head? ≠ some 0xE5)
    {fuel : Nat} (hfuel : 65536 ≤ fuel) :
    ∃ ret s', cmd.exec env fuel s = some (ret, s') ∧
      ((cmd = .delete cmd.name ∧ Deletes env cmd.name chains s ret s') ∨
        (cmd ≠ .delete cmd.name ∧ ∃ data ret₁ s₁, Deletes env cmd.name chains s ret₁ s₁ ∧
          Stores env cmd.name data s₁ ret s')) := by
  cases cmd with
  | write name data =>
      obtain ⟨ret₁, s₁, ret, s', hdeletes, hstores, heq⟩ :=
        fat16WriteFile_stores env hlayout hchained hname data hfuel
      exact ⟨ret, s', heq, Or.inr ⟨nofun, data, ret₁, s₁, hdeletes, hstores⟩⟩
  | create name =>
      obtain ⟨ret₁, s₁, ret, s', hdeletes, hstores, heq⟩ :=
        fat16WriteFile_stores env hlayout hchained hname [] hfuel
      exact ⟨ret, s', heq, Or.inr ⟨nofun, [], ret₁, s₁, hdeletes, hstores⟩⟩
  | delete name =>
      obtain ⟨ret, s', heq, hdeletes⟩ := fat16DeleteFile_deletes env hlayout hchained hname hfuel
      exact ⟨ret, s', heq, Or.inl ⟨rfl, hdeletes⟩⟩

end Command

/-- Unless the deletion orphans clusters, every command keeps the forest. -/
theorem Command.exec_chained (cmd : Command) {s : Fat16State} (hlayout : Layout s.fs)
    (hchained : Chained s.fs s.ata.bytes chains) (hname : cmd.name.bytes.head? ≠ some 0xE5)
    {fuel : Nat} (hfuel : 65536 ≤ fuel) (hmarked : ¬ Orphans env cmd.name chains s) :
    ∃ ret s', cmd.exec env fuel s = some (ret, s') ∧ (∃ files, s'.fs = { s.fs with files }) ∧
      ∃ chains', Chained s'.fs s'.ata.bytes chains' := by
  obtain ⟨ret, s', heq, ⟨-, hdeletes⟩ | ⟨-, data, ret₁, s₁, hdeletes, hstores⟩⟩ :=
    cmd.exec_cases env hlayout hchained hname hfuel
  · exact ⟨ret, s', heq, hdeletes.fs_eq, chains,
      hdeletes.chained hlayout hchained hname hmarked⟩
  · refine ⟨ret, s', heq, ?_, hstores.chained (hdeletes.layout hlayout)
      (hdeletes.chained hlayout hchained hname hmarked)⟩
    obtain ⟨files₁, hfs₁⟩ := hdeletes.fs_eq
    obtain ⟨files, hfs⟩ := hstores.fs_eq
    exact ⟨files, by rw [hfs, hfs₁]⟩

/-! ## Runs without faults -/

theorem Command.exec_unmounted (cmd : Command) {fuel : Nat} {s : Fat16State}
    (hmounted : s.fs.mounted = false) : cmd.exec env fuel s = some (-1, s) := by
  cases cmd <;> simp [exec, fat16WriteFile, fat16CreateFile, fat16DeleteFile, hmounted]

/-- The driver has refused the volume with the given geometry or works on it,
and the chains of the volume are a forest. -/
structure Sound (geometry : Fat16Fs) (s : Fat16State) : Prop where
  fs : s.fs.mounted = false ∨ ∃ files, s.fs = { geometry with files }
  chained : ∃ chains, Chained geometry s.ata.bytes chains

theorem Sound.exec {geometry : Fat16Fs} (hlayout : Layout geometry) {s : Fat16State}
    (h : Sound geometry s) (cmd : Command) (hname : cmd.name.bytes.head? ≠ some 0xE5)
    {fuel : Nat} (hfuel : 65536 ≤ fuel) :
    ∃ ret s', cmd.exec Env.faultless fuel s = some (ret, s') ∧ Sound geometry s' ∧
      s'.fs.mounted = s.fs.mounted := by
  obtain ⟨hunmounted | ⟨files, hfs⟩, chains, hchained⟩ := h
  · exact ⟨-1, s, cmd.exec_unmounted hunmounted, ⟨Or.inl hunmounted, chains, hchained⟩, rfl⟩
  · have hlayout' : Layout s.fs := hfs ▸ hlayout.with_files files
    have hchained' : Chained s.fs s.ata.bytes chains := hfs ▸ hchained.with_files files
    obtain ⟨ret, s', heq, ⟨files', hfs'⟩, chains', hkept⟩ :=
      cmd.exec_chained hlayout' hchained' hname hfuel (not_orphans_faultless _ _)
    rw [hfs] at hfs'
    rw [hfs'] at hkept
    exact ⟨ret, s', heq, ⟨Or.inr ⟨files', hfs'⟩, chains', hkept⟩, by rw [hfs', hfs]⟩

theorem Sound.mount {s : Fat16State}
    (hchained : ∃ chains, Chained (Fat16Bpb.decode s.ata.bytes).geometry s.ata.bytes chains) :
    Sound (Fat16Bpb.decode s.ata.bytes).geometry (fat16Mount env s).2 := by
  obtain ⟨hbytes, hfs⟩ := fat16Mount_state env s
  refine ⟨hfs, ?_⟩
  rw [hbytes]
  exact hchained

/-- On a drive without I/O errors, every run on a well-formed volume returns and
leaves the chains of the live entries disjoint, acyclic, ended and without free
clusters. -/
theorem fat16_run_keeps_chains {s : Fat16State}
    (hvolume : WellFormed (Fat16Bpb.decode s.ata.bytes).geometry s.ata.bytes)
    {cmds : List Command} (hnames : ∀ cmd ∈ cmds, cmd.name.bytes.head? ≠ some 0xE5)
    {fuel : Nat} (hfuel : 65536 ≤ fuel) :
    ∃ rets s', runAll (Command.exec Env.faultless fuel) cmds (fat16Mount Env.faultless s).2 =
        some (rets, s') ∧
      ∃ chains, Chained (Fat16Bpb.decode s.ata.bytes).geometry s'.ata.bytes chains ∧
        ∀ slot, (Fat16Bpb.decode s.ata.bytes).geometry.IsLiveIn s'.ata.bytes slot →
          (chains slot).Nodup ∧ ∀ c ∈ chains slot,
            fatEntry (Fat16Bpb.decode s.ata.bytes).geometry s'.ata.bytes c ≠ 0x0000 := by
  let inv (cmds : List Command) (s₁ : Fat16State) : Prop :=
    Sound (Fat16Bpb.decode s.ata.bytes).geometry s₁ ∧
      ∀ cmd ∈ cmds, cmd.name.bytes.head? ≠ some 0xE5
  have hstep (cmd : Command) (cmds : List Command) (s₁ : Fat16State) (hinv : inv (cmd :: cmds) s₁) :
      ∃ ret s₂, cmd.exec Env.faultless fuel s₁ = some (ret, s₂) ∧ inv cmds s₂ := by
    obtain ⟨ret, s₂, heq, hsound, -⟩ :=
      hinv.1.exec hvolume.layout cmd (hinv.2 cmd List.mem_cons_self) hfuel
    exact ⟨ret, s₂, heq, hsound, fun c hc => hinv.2 c (List.mem_cons_of_mem _ hc)⟩
  obtain ⟨rets, s', hrun, ⟨-, chains, hchained⟩, -⟩ :=
    runAll_returns inv hstep cmds _ ⟨Sound.mount hvolume.chained, hnames⟩
  refine ⟨rets, s', hrun, chains, hchained, fun slot hslot => ⟨?_, ?_⟩⟩
  · rcases hchained.chain slot hslot with ⟨-, hnil⟩ | hchain
    · rw [hnil]
      exact List.nodup_nil
    · exact hchain.nodup
  · exact fun c hc => hchained.fatEntry_ne_zero hslot hc

/-- A run on a freshly formatted drive. -/
theorem fat16_run_keeps_chains_formatted :
    ∃ rets s', runAll (Command.exec Env.faultless 65536)
        [.write ⟨[0x41], by simp⟩ [1], .create ⟨[0x42], by simp⟩, .delete ⟨[0x41], by simp⟩]
        (fat16Mount Env.faultless ⟨.zero, ⟨formatted 16 7, 0⟩⟩).2 = some (rets, s') ∧
      ∃ chains, Chained (Fat16Bpb.decode (formatted 16 7)).geometry s'.ata.bytes chains ∧
        ∀ slot, (Fat16Bpb.decode (formatted 16 7)).geometry.IsLiveIn s'.ata.bytes slot →
          (chains slot).Nodup ∧ ∀ c ∈ chains slot,
            fatEntry (Fat16Bpb.decode (formatted 16 7)).geometry s'.ata.bytes c ≠ 0x0000 :=
  fat16_run_keeps_chains (s := ⟨.zero, ⟨formatted 16 7, 0⟩⟩)
    (wellFormed_formatted (by decide) (by decide)) (by decide) le_rfl

end Dosfs.Fat16
