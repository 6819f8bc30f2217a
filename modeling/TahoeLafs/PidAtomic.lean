import TahoeLafs.PidSteps

/-! The two levels of the pidfile model: the statement-level machine of `PidSteps` refines the
machine of `PidWorld`, where each `FileLock` section is one step, as long as no process dies
between reading the pidfile and finishing its write. A process past its read is seen as having
written already; its read is the atomic `check_pid_process`, a timeout the atomic check that did
not get the lock, and the removal in `cleanup_pidfile` the atomic cleanup. -/
namespace TahoeLafs.PidAtomic
open PidText PidCheck PidWorld

section
variable {pidfile : FilePath} {w : PidWorld.World} {i : Nat} {p : Proc}

theorem step_spawn_eq {pid : Nat} {t : StartTime}
    (hs : ∀ (j : Nat) (q : Proc), w.procs[j]? = some q → q.alive = true → q.pid ≠ pid) :
    PidWorld.step pidfile w (.spawn pid t) =
      some { w with procs := w.procs ++ [⟨pid, t, true, false⟩] } := by
  rw [PidWorld.step, if_neg]
  intro hany
  obtain ⟨q, hq, hq'⟩ := List.any_eq_true.1 hany
  obtain ⟨j, hj⟩ := List.mem_iff_getElem?.1 hq
  simp only [Bool.and_eq_true, beq_iff_eq] at hq'
  exact hs j q hj hq'.1 hq'.2

theorem step_crash_eq (hp : w.procs[i]? = some p) (ha : p.alive = true) :
    PidWorld.step pidfile w (.crash i) =
      some { w with procs := w.procs.set i { p with alive := false } } := by
  simp [PidWorld.step, hp, ha]

theorem step_check_ok {locked : Bool} {c : Checked} (hp : w.procs[i]? = some p)
    (ha : p.alive = true)
    (h : checkPidProcess pidfile w.findProcess p.pid locked w.content = .ok c) :
    PidWorld.step pidfile w (.check i locked) = some { w with
      procs := w.procs.set i { p with holds := true }, content := some c.written } := by
  simp [PidWorld.step, hp, ha, h]

theorem step_cleanup_eq (hp : w.procs[i]? = some p) (ha : p.alive = true)
    (hh : p.holds = true) :
    PidWorld.step pidfile w (.cleanup i) = some ⟨w.procs.set i { p with holds := false }, none,
      w.raised ++ raisedBy i (cleanupPidfile pidfile w.content)⟩ := by
  simp [PidWorld.step, hp, ha, hh]

theorem run_singleton {ev : PidWorld.Event} :
    PidWorld.run pidfile w [ev] = PidWorld.step pidfile w ev := by
  simp only [PidWorld.run]
  cases PidWorld.step pidfile w ev <;> rfl

theorem run_append {evs evs' : List PidWorld.Event} :
    PidWorld.run pidfile w (evs ++ evs') =
      (PidWorld.run pidfile w evs).bind (PidWorld.run pidfile · evs') := by
  induction evs generalizing w with
  | nil => rfl
  | cons ev evs ih =>
    simp only [List.cons_append, PidWorld.run]
    cases PidWorld.step pidfile w ev <;> simp [ih]

end

section
open PidSteps

/-- The holder of the `FileLock` once it has read the pidfile: it is about to write its line. -/
def writer (w : PidSteps.World) : Option Nat :=
  match w.lock with
  | some (i, .cleared) => some i
  | some (i, .opened _) => some i
  | _ => none

/-- What the atomic machine sees of a state: a process past its read of the pidfile holds it,
and the pidfile is its line. -/
def atomic (w : PidSteps.World) : PidWorld.World :=
  match writer w with
  | some i =>
    match w.procs[i]? with
    | some p => ⟨w.procs.set i { p with holds := true }, some (pidLine p.pid p.startTime), w.raised⟩
    | none => w.toWorld
  | none => w.toWorld

/-- The step of the atomic machine that a step is, if it is one. -/
def atomicEvent : PidSteps.Event → Option PidWorld.Event
  | .spawn pid t => some (.spawn pid t)
  | .crash i => some (.crash i)
  | .timeout i => some (.check i false)
  | .examine i => some (.check i true)
  | .remove i => some (.cleanup i)
  | _ => none

/-- Runs in which no process dies between reading the pidfile and finishing its write. -/
def cleanRun (pidfile : FilePath) : PidSteps.World → List PidSteps.Event → Option PidSteps.World :=
  runSparing pidfile writer

variable {pidfile : FilePath} {w w' : PidSteps.World} {i : Nat} {p : Proc}

theorem atomic_of_writer_none (h : writer w = none) : atomic w = w.toWorld := by
  simp [atomic, h]

theorem atomic_of_writer (h : writer w = some i) (hp : w.procs[i]? = some p) :
    atomic w = ⟨w.procs.set i { p with holds := true }, some (pidLine p.pid p.startTime),
      w.raised⟩ := by
  simp [atomic, h, hp]

theorem writer_eq_some (h : writer w = some i) :
    ∃ ph, w.lock = some (i, ph) ∧ (ph = .cleared ∨ ∃ t, ph = .opened t) := by
  unfold writer at h
  split at h
  · cases h
    exact ⟨_, ‹_›, .inl rfl⟩
  · cases h
    exact ⟨_, ‹_›, .inr ⟨_, rfl⟩⟩
  · cases h

theorem writer_proc (hi : PidSteps.Inv w) (h : writer w = some i) :
    ∃ p, w.procs[i]? = some p ∧ p.alive = true ∧ (w.content = none ∨ w.content = some "") := by
  obtain ⟨ph, hl, rfl | ⟨t, rfl⟩⟩ := writer_eq_some h
  · obtain ⟨p, hp, ha, hc⟩ := hi.owner i _ hl
    exact ⟨p, hp, ha, .inl hc⟩
  · obtain ⟨p, hp, ha, hc, -⟩ := hi.owner i _ hl
    exact ⟨p, hp, ha, .inr hc⟩

theorem writer_crash {j : Nat} (hl' : w'.lock = w.lock.filter fun s => s.1 != j)
    (hj : writer w ≠ some j) : writer w' = writer w := by
  rw [writer, hl']
  rcases hl : w.lock with _ | ⟨k, ph⟩
  · simp [writer, hl]
  · by_cases hk : k = j
    · subst hk
      cases ph <;> simp_all [writer, Option.filter]
    · simp [writer, hl, hk, Option.filter]

/-- Every step from a reachable state in which the writer does not die is, as the atomic
machine sees it, the atomic step `atomicEvent` names, or no step at all. -/
theorem step_refines_atomic {ev : PidSteps.Event} (hi : PidSteps.Inv w)
    (h : stepSparing pidfile writer w ev = some w') :
    PidWorld.run pidfile (atomic w) (atomicEvent ev).toList = some (atomic w') := by
  obtain ⟨hstep, hclean⟩ := stepSparing_step h
  clear h
  cases ev <;> simp only [atomicEvent, Option.toList, run_singleton, PidWorld.run.eq_1,
    Option.some.injEq]
  case spawn pid t =>
    obtain ⟨hs, rfl⟩ := PidSteps.step_spawn hstep
    cases hwr : writer w with
    | none =>
      rw [atomic_of_writer_none hwr, atomic_of_writer_none]
      exacts [step_spawn_eq hs, hwr]
    | some i =>
      obtain ⟨p, hp, -, -⟩ := writer_proc hi hwr
      have hs' : ∀ (j : Nat) (q : Proc), (w.procs.set i { p with holds := true })[j]? = some q →
          q.alive = true → q.pid ≠ pid := fun j q hq hqa => by
        obtain ⟨q₀, hq₀, hq₀a, hpid⟩ := live_of_set hp (by rfl) (by exact id) hq hqa
        exact hpid ▸ hs j q₀ hq₀ hq₀a
      rw [atomic_of_writer hwr hp, atomic_of_writer (i := i) (p := p), step_spawn_eq hs',
        List.set_append_left _ _ (List.getElem?_eq_some_iff.1 hp).1]
      exacts [hwr, getElem?_concat_of_some hp]
  case crash j =>
    obtain ⟨q, hq, hqa, rfl⟩ := PidSteps.step_crash hstep
    have hj := hclean j rfl
    cases hwr : writer w with
    | none =>
      rw [atomic_of_writer_none hwr, atomic_of_writer_none]
      exacts [step_crash_eq hq hqa, (writer_crash rfl hj).trans hwr]
    | some i =>
      have hij : i ≠ j := fun hij => hj (hij ▸ hwr)
      obtain ⟨p, hp, -, -⟩ := writer_proc hi hwr
      have hq' : (w.procs.set i { p with holds := true })[j]? = some q := by
        rw [List.getElem?_set_ne hij, hq]
      rw [atomic_of_writer hwr hp, atomic_of_writer (i := i) (p := p), step_crash_eq hq' hqa,
        List.set_comm _ _ _ hij]
      · exact (writer_crash rfl hj).trans hwr
      · rw [List.getElem?_set_ne (Ne.symm hij), hp]
  case acquire i =>
    obtain ⟨p, hp, ha, hl, rfl⟩ := PidSteps.step_acquire hstep
    simp [atomic, writer, hl]
  case timeout i =>
    obtain ⟨p, j, ph, hp, ha, hl, hji, rfl⟩ := PidSteps.step_timeout hstep
    cases hwr : writer w with
    | none =>
      rw [atomic_of_writer_none hwr, atomic_of_writer_none]
      exacts [step_check_error hp ha (checkPidProcess_timeout _ _ _ _), hwr]
    | some k =>
      -- the process about to write is the one holding the lock
      obtain ⟨ph', hl', -⟩ := writer_eq_some hwr
      cases hl.symm.trans hl'
      obtain ⟨r, hr, -, -⟩ := writer_proc hi hwr
      have hp' : (w.procs.set j { r with holds := true })[i]? = some p := by
        rw [List.getElem?_set_ne hji, hp]
      rw [atomic_of_writer hwr hr, atomic_of_writer (i := j) (p := r)]
      exacts [step_check_error hp' ha (checkPidProcess_timeout _ _ _ _), hwr, hr]
  case examine i =>
    obtain ⟨p, hp, ha, hl, hcases⟩ := PidSteps.step_examine hstep
    have hf := findProcess_alive hi.pids_unique hp ha
    rw [atomic_of_writer_none (by simp [writer, hl])]
    rcases hcases with ⟨hc, rfl⟩ | ⟨text, m, ht, hx, rfl⟩ | ⟨text, e, ht, hx, rfl⟩
    · -- no pidfile: the atomic check writes the line at once
      rw [atomic_of_writer (i := i) (p := p)]
      exacts [step_check_ok hp ha (c := ⟨none, pidLine p.pid p.startTime⟩)
        (by simp [checkPidProcess, hc, hf]), rfl, hp]
    · -- a stale pidfile: the atomic check removes it and writes the line
      rw [atomic_of_writer (i := i) (p := p)]
      exacts [step_check_ok hp ha (c := ⟨some m, pidLine p.pid p.startTime⟩)
        (by simp [checkPidProcess, ht, hx, hf]), rfl, hp]
    · rw [atomic_of_writer_none]
      exacts [step_check_error hp ha (by simp [checkPidProcess, ht, hx]), rfl]
  case openPidfile i =>
    obtain ⟨p, hp, ha, hl, ⟨t, ht, rfl⟩ | ⟨e, he, rfl⟩⟩ := PidSteps.step_openPidfile hstep
    · simp [atomic, writer, hl, hp]
    · rw [findProcess_alive hi.pids_unique hp ha] at he
      cases he
  case write i =>
    obtain ⟨p, t, hp, ha, hl, rfl⟩ := PidSteps.step_write hstep
    obtain ⟨q, hq, -, -, rfl⟩ := hi.owner i _ hl
    cases hp.symm.trans hq
    simp [atomic, writer, hl, hp]
  case acquireCleanup i =>
    obtain ⟨p, hp, ha, hh, hl, rfl⟩ := PidSteps.step_acquireCleanup hstep
    simp [atomic, writer, hl]
  case remove i =>
    obtain ⟨p, hp, ha, hl, rfl⟩ := PidSteps.step_remove hstep
    obtain ⟨q, hq, -, hh⟩ := hi.owner i _ hl
    cases hp.symm.trans hq
    rw [atomic_of_writer_none (by simp [writer, hl]), atomic_of_writer_none]
    exacts [step_cleanup_eq hp ha hh, rfl]

theorem cleanRun_refines {evs : List PidSteps.Event} (hw : PidSteps.Reachable pidfile w)
    (h : cleanRun pidfile w evs = some w') :
    PidWorld.run pidfile (atomic w) (evs.filterMap atomicEvent) = some (atomic w') := by
  induction evs generalizing w with
  | nil =>
    cases h
    rfl
  | cons ev evs ih =>
    obtain ⟨w₁, h₁, h⟩ := Option.bind_eq_some.1 h
    have hcons : (ev :: evs).filterMap atomicEvent =
        (atomicEvent ev).toList ++ evs.filterMap atomicEvent := by
      rw [List.filterMap_cons]
      cases atomicEvent ev <;> rfl
    rw [hcons, run_append, step_refines_atomic hw.inv h₁, Option.some_bind]
    exact ih (hw.step ev (stepSparing_step h₁).1) h

/-- Runs of the statement-level machine in which no process dies between reading the pidfile
and finishing its write are runs of the atomic machine, up to the steps that only move a
process inside its `FileLock` section. -/
theorem clean_runs_are_atomic {evs : List PidSteps.Event}
    (h : cleanRun pidfile PidSteps.init evs = some w) :
    PidWorld.run pidfile PidWorld.init (evs.filterMap atomicEvent) = some (atomic w) :=
  cleanRun_refines .init h

theorem clean_runs_are_atomic_while_waiting :
    cleanRun runningProcess PidSteps.init waitingRun = some whileWaiting ∧
      PidWorld.run runningProcess PidWorld.init (waitingRun.filterMap atomicEvent) =
        some (atomic whileWaiting) :=
  have h : cleanRun runningProcess PidSteps.init waitingRun = some whileWaiting := rfl
  ⟨h, clean_runs_are_atomic h⟩

end

/-! The cut is needed: a death in the middle of the write leaves an empty pidfile
(`PidSteps.emptied_pidfile_stays`), which no run of the atomic machine ever shows. -/
section
variable {pidfile : FilePath} {w : PidWorld.World}

end

end TahoeLafs.PidAtomic
