import Mathlib.Data.Fintype.Basic
import Mathlib.Data.Finset.Card
import Dosfs.Process.Scheduler

/-!
# The scheduler's invariant

The table, the counter and the current index are edited separately by four
operations. In every run, with pages available or not, the counter is the
number of slots in use, the current process is one of them, and it is the only
one that may be running.
-/

namespace Dosfs

/-- The slots in use. -/
def Scheduler.alive (s : Scheduler) : Finset (Fin maxProcesses) :=
  Finset.univ.filter fun i => (s.processes i).state ≠ .unused

structure SchedulerInv (s : Scheduler) : Prop where
  count : s.processCount = s.alive.card
  current : s.currentProcess = -1 ∨ ∃ i ∈ s.alive, s.currentProcess = i
  running : ∀ i, (s.processes i).state = .running → s.currentProcess = i
  pid : ∀ i ∈ s.alive, (s.processes i).pid = i + 1

variable {s : Scheduler} {i j : Fin maxProcesses} {proc : Process}

/-! ## Storing a slot -/

theorem Scheduler.mem_alive : i ∈ s.alive ↔ (s.processes i).state ≠ .unused := by
  simp [alive]

theorem Scheduler.notMem_alive (hunused : (s.processes i).state = .unused) : i ∉ s.alive :=
  fun hmem => Scheduler.mem_alive.1 hmem hunused

@[simp] theorem Scheduler.store_same : (s.store i proc).processes i = proc :=
  Function.update_self ..

theorem Scheduler.store_of_ne (hj : j ≠ i) : (s.store i proc).processes j = s.processes j :=
  Function.update_of_ne hj ..

/-- What holds of every process alive holds after a slot was stored, if it holds
of the new entry. -/
theorem Scheduler.forall_alive_store {P : Fin maxProcesses → Process → Prop}
    (hold : ∀ j ∈ s.alive, P j (s.processes j)) (hnew : proc.state ≠ .unused → P i proc) :
    ∀ j ∈ (s.store i proc).alive, P j ((s.store i proc).processes j) := by
  intro j hj
  have hused := Scheduler.mem_alive.1 hj
  by_cases hji : j = i
  · subst hji
    rw [Scheduler.store_same] at hused ⊢
    exact hnew hused
  · rw [Scheduler.store_of_ne hji] at hused ⊢
    exact hold j (Scheduler.mem_alive.2 hused)

theorem Scheduler.mem_alive_of_store (hj : j ∈ (s.store i proc).alive) (hne : j ≠ i) :
    j ∈ s.alive := by
  rw [Scheduler.mem_alive, Scheduler.store_of_ne hne] at hj
  exact Scheduler.mem_alive.2 hj

/-- What tells the processes alive apart still does, if it is new in the new entry. -/
theorem Scheduler.distinct_store {β : Type} {f : Process → β}
    (hold : ∀ j ∈ s.alive, ∀ k ∈ s.alive, f (s.processes j) = f (s.processes k) → j = k)
    (hnew : ∀ j ∈ s.alive, f (s.processes j) ≠ f proc) :
    ∀ j ∈ (s.store i proc).alive, ∀ k ∈ (s.store i proc).alive,
      f ((s.store i proc).processes j) = f ((s.store i proc).processes k) → j = k := by
  intro j hj k hk hsame
  by_cases hji : j = i <;> by_cases hki : k = i
  · rw [hji, hki]
  · rw [hji, Scheduler.store_same, Scheduler.store_of_ne hki] at hsame
    exact absurd hsame.symm (hnew k (Scheduler.mem_alive_of_store hk hki))
  · rw [hki, Scheduler.store_same, Scheduler.store_of_ne hji] at hsame
    exact absurd hsame (hnew j (Scheduler.mem_alive_of_store hj hji))
  · rw [Scheduler.store_of_ne hji, Scheduler.store_of_ne hki] at hsame
    exact hold j (Scheduler.mem_alive_of_store hj hji) k (Scheduler.mem_alive_of_store hk hki) hsame

theorem alive_store_used (hproc : proc.state ≠ .unused) :
    (s.store i proc).alive = insert i s.alive := by
  ext j
  rw [Finset.mem_insert, Scheduler.mem_alive, Scheduler.mem_alive]
  by_cases hj : j = i
  · simp [hj, hproc]
  · simp [hj, Scheduler.store_of_ne]

theorem alive_store_unused (hproc : proc.state = .unused) :
    (s.store i proc).alive = s.alive.erase i := by
  ext j
  rw [Finset.mem_erase, Scheduler.mem_alive, Scheduler.mem_alive]
  by_cases hj : j = i
  · simp [hj, hproc]
  · simp [hj, Scheduler.store_of_ne]

theorem slotAt_coe (i : Fin maxProcesses) : slotAt i = i := by
  apply Fin.ext
  have hlt := i.isLt
  simp only [slotAt, maxProcesses] at hlt ⊢
  omega

/-- A current process is in use. -/
theorem SchedulerInv.current_slot (hinv : SchedulerInv s) (hcurrent : 0 ≤ s.currentProcess) :
    ∃ i ∈ s.alive, s.currentProcess = i ∧ slotAt s.currentProcess = i := by
  rcases hinv.current with hnone | ⟨i, hi, heq⟩
  · rw [hnone] at hcurrent
    exact absurd hcurrent (by decide)
  · exact ⟨i, hi, heq, by rw [heq, slotAt_coe]⟩

/-- Storing a slot together with the counter and the current index keeps the
invariant if the counter fits the new table, the current process is in it, and
neither the slot nor another one runs without being current. -/
theorem SchedulerInv.edit {count current : Int} (hinv : SchedulerInv s)
    (hcount : count = (s.store i proc).alive.card)
    (hcurrent : current = -1 ∨ ∃ j ∈ (s.store i proc).alive, current = j)
    (hrunning : proc.state = .running → current = i)
    (hother : ∀ j, j ≠ i → (s.processes j).state = .running → current = j)
    (hpid : proc.state ≠ .unused → proc.pid = i + 1) :
    SchedulerInv { s.store i proc with processCount := count, currentProcess := current } := by
  refine ⟨hcount, hcurrent, fun j hj => ?_,
    @Scheduler.forall_alive_store s i proc (fun j q => q.pid = j + 1) hinv.pid hpid⟩
  change ((s.store i proc).processes j).state = .running at hj
  by_cases hji : j = i
  · rw [hji, Scheduler.store_same] at hj
    rw [hji]
    exact hrunning hj
  · rw [Scheduler.store_of_ne hji] at hj
    exact hother j hji hj

/-- No process but the current one runs. -/
theorem SchedulerInv.not_running (hinv : SchedulerInv s) (hcurrent : s.currentProcess = i)
    (hj : j ≠ i) : (s.processes j).state ≠ .running := by
  intro hrunning
  have hsame : (i : Int) = j := hcurrent.symm.trans (hinv.running j hrunning)
  exact hj (Fin.ext (by exact_mod_cast hsame.symm))

/-- A slot in use is stored with its pid; it may run only if it is current. -/
theorem SchedulerInv.store_used (hinv : SchedulerInv s) (hi : i ∈ s.alive)
    (hused : proc.state ≠ .unused) (hrunning : proc.state = .running → s.currentProcess = i)
    (hpid : proc.pid = (s.processes i).pid) : SchedulerInv (s.store i proc) := by
  have halive : (s.store i proc).alive = s.alive := by
    rw [alive_store_used hused, Finset.insert_eq_of_mem hi]
  refine hinv.edit ?_ ?_ hrunning (fun j _ => hinv.running j) fun _ => ?_
  · rw [halive]
    exact hinv.count
  · rw [halive]
    exact hinv.current
  · rw [hpid]
    exact hinv.pid i hi

/-- A slot that is not in use stays so. -/
theorem SchedulerInv.store_unused (hinv : SchedulerInv s) (hi : i ∉ s.alive)
    (hunused : proc.state = .unused) : SchedulerInv (s.store i proc) := by
  have halive : (s.store i proc).alive = s.alive := by
    rw [alive_store_unused hunused, Finset.erase_eq_of_notMem hi]
  refine hinv.edit ?_ ?_ ?_ (fun j _ => hinv.running j) (absurd hunused)
  · rw [halive]
    exact hinv.count
  · rw [halive]
    exact hinv.current
  · rw [hunused]
    exact nofun

/-- A new process in an unused slot. -/
theorem SchedulerInv.create (hinv : SchedulerInv s) (hi : i ∉ s.alive)
    (hready : proc.state = .ready) (hpid : proc.pid = i + 1) :
    SchedulerInv { s.store i proc with processCount := s.processCount + 1 } := by
  have halive : (s.store i proc).alive = insert i s.alive :=
    alive_store_used (by rw [hready]; decide)
  refine hinv.edit ?_ ?_ ?_ (fun j _ => hinv.running j) fun _ => hpid
  · rw [halive, Finset.card_insert_of_notMem hi, hinv.count]
    rfl
  · rw [halive]
    refine hinv.current.imp_right ?_
    rintro ⟨j, hj, heq⟩
    exact ⟨j, Finset.mem_insert_of_mem hj, heq⟩
  · rw [hready]
    exact nofun

/-- The current process leaves the table. -/
theorem SchedulerInv.exit (hinv : SchedulerInv s) (hi : i ∈ s.alive)
    (hcurrent : s.currentProcess = i) (hunused : proc.state = .unused) :
    SchedulerInv { s.store i proc with
      processCount := s.processCount - 1
      currentProcess := -1 } := by
  refine hinv.edit ?_ (Or.inl rfl) ?_ ?_ (absurd hunused)
  · have hpos := Finset.card_pos.2 ⟨i, hi⟩
    rw [alive_store_unused hunused, Finset.card_erase_of_mem hi, hinv.count]
    omega
  · rw [hunused]
    exact nofun
  · intro j hj hrunning
    exact absurd hrunning (hinv.not_running hcurrent hj)

/-- The processor goes to a slot in use while nothing runs. -/
theorem SchedulerInv.dispatch (hinv : SchedulerInv s) (hi : i ∈ s.alive)
    (hidle : ∀ j, (s.processes j).state ≠ .running) :
    SchedulerInv
      { s.store i { s.processes i with state := .running } with currentProcess := i } := by
  have halive : (s.store i { s.processes i with state := .running }).alive = s.alive := by
    rw [alive_store_used (by simp), Finset.insert_eq_of_mem hi]
  refine hinv.edit ?_ (Or.inr ⟨i, ?_, rfl⟩) (fun _ => rfl) ?_ fun _ => hinv.pid i hi
  · rw [halive]
    exact hinv.count
  · rw [halive]
    exact hi
  · intro j _ hrunning
    exact absurd hrunning (hidle j)

/-! ## Steps -/

section

variable {σ : Type} {src : PageSource σ} {m : Machine σ}

theorem schedulerInit_inv : SchedulerInv schedulerInit := by
  have hnone : schedulerInit.alive = ∅ := by
    simp [Scheduler.alive, schedulerInit]
  refine ⟨?_, Or.inl rfl, fun i hi => ?_, fun i hi => ?_⟩
  · rw [hnone]
    rfl
  · exact absurd hi (by simp [schedulerInit])
  · rw [hnone] at hi
    exact absurd hi (Finset.notMem_empty i)

theorem SchedulerInv.processCreate (hinv : SchedulerInv s) (name : CString) (entry : Nat) :
    SchedulerInv (processCreate src name entry s m).1 := by
  have hcreates := processCreate_creates src name entry s m
  generalize (Dosfs.processCreate src name entry s m).1 = s' at hcreates ⊢
  generalize (Dosfs.processCreate src name entry s m).2 = m' at hcreates
  cases hcreates with
  | refused => exact hinv
  | noKernelStack slot proc hslot hproc | noUserStack slot proc hslot hproc =>
      exact hinv.store_unused (Scheduler.notMem_alive hslot) hproc
  | created slot proc hslot hproc hpid =>
      exact hinv.create (Scheduler.notMem_alive hslot) hproc hpid

/-- What `process_exit` leaves in the table. -/
theorem processExit_scheduler (src : PageSource σ) (code : Int) (s : Scheduler) (m : Machine σ) :
    (s.currentProcess < 0 ∧ processExit src code s m = (s, m)) ∨
    (0 ≤ s.currentProcess ∧ ∃ proc, proc.state = .unused ∧
      (processExit src code s m).1 = { s.store (slotAt s.currentProcess) proc with
        processCount := s.processCount - 1
        currentProcess := -1 }) := by
  by_cases hnone : s.currentProcess < 0
  · exact Or.inl ⟨hnone, if_pos hnone⟩
  · refine Or.inr ⟨Int.not_lt.1 hnone, ?_⟩
    unfold processExit
    rw [if_neg hnone]
    exact ⟨_, rfl, rfl⟩

theorem SchedulerInv.processExit (hinv : SchedulerInv s) (code : Int) :
    SchedulerInv (processExit src code s m).1 := by
  rcases processExit_scheduler src code s m with ⟨-, heq⟩ | ⟨hcurrent, proc, hproc, heq⟩
  · rw [heq]
    exact hinv
  · obtain ⟨i, hi, hindex, hslot⟩ := hinv.current_slot hcurrent
    rw [heq, hslot]
    exact hinv.exit hi hindex hproc

end

/-- The current process stops running. -/
theorem SchedulerInv.processYield (hinv : SchedulerInv s) :
    SchedulerInv (processYield s) ∧ ∀ j, ((processYield s).processes j).state ≠ .running := by
  unfold Dosfs.processYield
  split
  next hcurrent =>
    obtain ⟨i, hi, hindex, hslot⟩ := hinv.current_slot hcurrent
    rw [hslot]
    refine ⟨hinv.store_used hi (by simp) (fun h => absurd h (by simp)) rfl, fun j hj => ?_⟩
    by_cases hji : j = i
    · rw [hji, Scheduler.store_same] at hj
      exact absurd hj (by simp)
    · rw [Scheduler.store_of_ne hji] at hj
      exact hinv.not_running hindex hji hj
  next hnone =>
    refine ⟨hinv, fun j hj => hnone ?_⟩
    rw [hinv.running j hj]
    exact Int.natCast_nonneg j

theorem SchedulerInv.countSlice (hinv : SchedulerInv s) : SchedulerInv (countSlice s) := by
  unfold Dosfs.countSlice
  dsimp only
  split
  next hrunning =>
    obtain ⟨i, hi, hindex, hslot⟩ := hinv.current_slot hrunning.1
    rw [hslot]
    exact hinv.store_used hi (Scheduler.mem_alive.1 hi) (fun _ => hindex) rfl
  next => exact hinv

theorem alive_processYield (hinv : SchedulerInv s) : (processYield s).alive = s.alive := by
  unfold processYield
  split
  next hcurrent =>
    obtain ⟨i, hi, -, hslot⟩ := hinv.current_slot hcurrent
    rw [hslot, alive_store_used (by simp), Finset.insert_eq_of_mem hi]
  next => rfl

theorem SchedulerInv.schedulerTick (hinv : SchedulerInv s) : SchedulerInv (schedulerTick s) := by
  unfold Dosfs.schedulerTick
  split
  next => exact hinv
  next =>
    have hcounted := hinv.countSlice
    generalize Dosfs.countSlice s = s₁ at hcounted ⊢
    dsimp only
    split
    next => exact hcounted
    next i hfind =>
      split
      next => exact hcounted
      next hother =>
        have hnext : slotAt (s₁.currentProcess + 1 + i) ∈ s₁.alive := by
          have hrunnable := List.find?_some hfind
          rw [Scheduler.mem_alive]
          intro hunused
          simp [Process.runnable, hunused] at hrunnable
        obtain ⟨hparked, hidle⟩ := hcounted.processYield
        rw [← alive_processYield hcounted] at hnext
        exact hparked.dispatch hnext hidle

/-! ## Runs -/

theorem stepProcess_inv {σ : Type} (src : PageSource σ) (m : Machine σ) (hinv : SchedulerInv s)
    (op : ProcessOp) : SchedulerInv (stepProcess src s m op).1 := by
  cases op with
  | create name entry => exact hinv.processCreate name entry
  | exit code => exact hinv.processExit code
  | yield => exact hinv.processYield.1
  | tick => exact hinv.schedulerTick

theorem runProcesses_inv {σ : Type} (src : PageSource σ) (m : Machine σ) (hinv : SchedulerInv s)
    (ops : List ProcessOp) : SchedulerInv (runProcesses src ops (s, m)).1 := by
  induction ops generalizing s m with
  | nil => exact hinv
  | cons op ops ih =>
      rw [runProcesses, List.foldl_cons]
      exact ih _ (stepProcess_inv src m hinv op)

/-- After `scheduler_init` every run keeps the invariant, whatever the allocator
of pages answers. In particular at most one process is running. -/
theorem scheduler_run_keeps_invariant {σ : Type} (src : PageSource σ) (m : Machine σ)
    (ops : List ProcessOp) :
    SchedulerInv (runProcesses src ops (schedulerInit, m)).1 ∧
      ∀ i j, ((runProcesses src ops (schedulerInit, m)).1.processes i).state = .running →
        ((runProcesses src ops (schedulerInit, m)).1.processes j).state = .running → i = j := by
  have hinv := runProcesses_inv src m schedulerInit_inv ops
  refine ⟨hinv, fun i j hi hj => ?_⟩
  have hsame : (i : Int) = j := (hinv.running i hi).symm.trans (hinv.running j hj)
  exact Fin.ext (by exact_mod_cast hsame)

end Dosfs
