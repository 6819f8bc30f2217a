import TahoeLafs.PidLock

/-! The pidfile protocol statement by statement. `check_pid_process` runs its `FileLock` section
as four steps (take the lock; read the pidfile and remove a stale one; read the start time and
open the pidfile for writing; write it, close it and release the lock) and `cleanup_pidfile` as
two, and a process may die between any two of them. The operating system releases the
`FileLock` of a process that dies. -/
namespace TahoeLafs.PidSteps
open PidText PidCheck PidWorld
open PidLock (LockEvent lockStep lockRun holder OneHolder LockTrace holder_eq_none holder_eq_some
  holder_after_drop not_holder_set getElem?_set_of_some)

/-- Where the process holding the `FileLock` is in its call of `check_pid_process` or
`cleanup_pidfile`. -/
inductive Phase where
  /-- In `check_pid_process`, before `if pidfile.exists()`. -/
  | locked
  /-- In `check_pid_process`, after finding no pidfile or removing a stale one. -/
  | cleared
  /-- In `check_pid_process`, with the start time `t` read and the pidfile opened for writing,
  which truncates it. -/
  | opened (t : StartTime)
  /-- In `cleanup_pidfile`. -/
  | cleaning
  deriving DecidableEq

/-- The processes, the pidfile and the raised exceptions as in `PidWorld`, and the process that
holds the `FileLock` with where it is in its call. The other processes are in neither call:
before taking the lock a call has done nothing. -/
structure World extends PidWorld.World where
  lock : Option (Nat × Phase)

def init : World := ⟨PidWorld.init, none⟩

inductive Event where
  | spawn (pid : Nat) (t : StartTime)
  /-- Process `i` dies; the operating system releases its `FileLock`. -/
  | crash (i : Nat)
  /-- `check_pid_process` of process `i` takes the free `FileLock`. -/
  | acquire (i : Nat)
  /-- `check_pid_process` of process `i` gives up on the `FileLock` another process holds. -/
  | timeout (i : Nat)
  /-- `if pidfile.exists(): ...`: read and parse the pidfile, look its pid up, and remove it if
  no process has that pid. -/
  | examine (i : Nat)
  /-- `find_process(os.getpid()).create_time()`, then `pidfile.open("w")`. -/
  | openPidfile (i : Nat)
  /-- `f.write(...)`, closing the pidfile, releasing the `FileLock` and returning. -/
  | write (i : Nat)
  /-- `cleanup_pidfile` of process `i` takes the free `FileLock`; it has no timeout. -/
  | acquireCleanup (i : Nat)
  /-- `pidfile.remove()`, then releasing the `FileLock`. -/
  | remove (i : Nat)

section
variable (pidfile : FilePath)

def step (w : World) : Event → Option World
  | .spawn pid t =>
    if w.procs.any fun p => p.alive && p.pid == pid then none
    else some { w with procs := w.procs ++ [⟨pid, t, true, false⟩] }
  | .crash i =>
    match w.procs[i]? with
    | some p =>
      if p.alive then
        some { w with procs := w.procs.set i { p with alive := false },
                      lock := w.lock.filter fun s => s.1 != i }
      else none
    | none => none
  | .acquire i =>
    match w.procs[i]?, w.lock with
    | some p, none => if p.alive then some { w with lock := some (i, .locked) } else none
    | _, _ => none
  | .timeout i =>
    match w.procs[i]?, w.lock with
    | some p, some (j, _) =>
      if p.alive ∧ j ≠ i then
        some { w with raised := w.raised ++
          [(i, .processInTheWay s!"Another process is still locking {pidfile.path}")] }
      else none
    | _, _ => none
  | .examine i =>
    match w.procs[i]?, w.lock with
    | some p, some (j, .locked) =>
      if p.alive ∧ j = i then
        match w.content with
        | none => some { w with lock := some (i, .cleared) }
        | some text =>
          match checkExisting pidfile w.findProcess text with
          | .ok _ => some { w with content := none, lock := some (i, .cleared) }
          | .error e => some { w with raised := w.raised ++ [(i, e)], lock := none }
      else none
    | _, _ => none
  | .openPidfile i =>
    match w.procs[i]?, w.lock with
    | some p, some (j, .cleared) =>
      if p.alive ∧ j = i then
        match w.findProcess p.pid with
        | .ok t => some { w with content := some "", lock := some (i, .opened t) }
        | .error e => some { w with raised := w.raised ++ [(i, e)], lock := none }
      else none
    | _, _ => none
  | .write i =>
    match w.procs[i]?, w.lock with
    | some p, some (j, .opened t) =>
      if p.alive ∧ j = i then
        some { w with procs := w.procs.set i { p with holds := true },
                      content := some (pidLine p.pid t), lock := none }
      else none
    | _, _ => none
  | .acquireCleanup i =>
    match w.procs[i]?, w.lock with
    | some p, none =>
      if p.alive && p.holds then some { w with lock := some (i, .cleaning) } else none
    | _, _ => none
  | .remove i =>
    match w.procs[i]?, w.lock with
    | some p, some (j, .cleaning) =>
      if p.alive ∧ j = i then
        some { w with procs := w.procs.set i { p with holds := false }, content := none,
                      raised := w.raised ++ raisedBy i (cleanupPidfile pidfile w.content),
                      lock := none }
      else none
    | _, _ => none

def run : World → List Event → Option World
  | w, [] => some w
  | w, ev :: evs => (step pidfile w ev).bind (run · evs)

def stepSparing (spared : World → Option Nat) (w : World) : Event → Option World
  | .crash i => if spared w = some i then none else step pidfile w (.crash i)
  | ev => step pidfile w ev

def runSparing (spared : World → Option Nat) : World → List Event → Option World
  | w, [] => some w
  | w, ev :: evs => (stepSparing pidfile spared w ev).bind (runSparing spared · evs)

inductive Reachable : World → Prop
  | init : Reachable init
  | step {w w' : World} (ev : Event) : Reachable w → step pidfile w ev = some w' → Reachable w'

theorem Reachable.run {w w' : World} {evs : List Event} (hw : Reachable pidfile w)
    (h : run pidfile w evs = some w') : Reachable pidfile w' := by
  induction evs generalizing w with
  | nil => cases h; exact hw
  | cons ev evs ih =>
    obtain ⟨w₁, h₁, h⟩ := Option.bind_eq_some.1 h
    exact ih (hw.step ev h₁) h

end

section
variable {pidfile : FilePath} {w w' : World} {i : Nat}

theorem stepSparing_step {spared : World → Option Nat} {ev : Event}
    (h : stepSparing pidfile spared w ev = some w') :
    step pidfile w ev = some w' ∧ ∀ i, ev = .crash i → spared w ≠ some i := by
  cases ev with
  | crash j =>
    simp only [stepSparing] at h
    split_ifs at h with hj
    exact ⟨h, fun i hi => by cases hi; exact hj⟩
  | _ => exact ⟨h, fun _ hi => nomatch hi⟩

theorem Reachable.runSparing {spared : World → Option Nat} {evs : List Event}
    (hw : Reachable pidfile w) (h : runSparing pidfile spared w evs = some w') :
    Reachable pidfile w' := by
  induction evs generalizing w with
  | nil => cases h; exact hw
  | cons ev evs ih =>
    obtain ⟨w₁, h₁, h⟩ := Option.bind_eq_some.1 h
    exact ih (hw.step ev (stepSparing_step h₁).1) h

theorem step_spawn {pid : Nat} {t : StartTime} (h : step pidfile w (.spawn pid t) = some w') :
    (∀ (j : Nat) (q : Proc), w.procs[j]? = some q → q.alive = true → q.pid ≠ pid) ∧
      w' = { w with procs := w.procs ++ [⟨pid, t, true, false⟩] } := by
  simp only [step] at h
  split at h
  · cases h
  · rename_i hany
    refine ⟨fun j q hq ha hpid => hany ?_, (Option.some.inj h).symm⟩
    exact List.any_eq_true.2 ⟨q, List.mem_iff_getElem?.2 ⟨j, hq⟩, by simp [ha, hpid]⟩

theorem step_crash (h : step pidfile w (.crash i) = some w') :
    ∃ p, w.procs[i]? = some p ∧ p.alive = true ∧
      w' = { w with procs := w.procs.set i { p with alive := false },
                    lock := w.lock.filter fun s => s.1 != i } := by
  simp only [step] at h
  split at h
  · rename_i p hp
    split at h
    · exact ⟨p, hp, ‹_›, (Option.some.inj h).symm⟩
    · cases h
  · cases h

theorem step_acquire (h : step pidfile w (.acquire i) = some w') :
    ∃ p, w.procs[i]? = some p ∧ p.alive = true ∧ w.lock = none ∧
      w' = { w with lock := some (i, .locked) } := by
  simp only [step] at h
  split at h
  · rename_i p hp hl
    split at h
    · exact ⟨p, hp, ‹_›, hl, (Option.some.inj h).symm⟩
    · cases h
  · cases h

theorem step_timeout (h : step pidfile w (.timeout i) = some w') :
    ∃ p j ph, w.procs[i]? = some p ∧ p.alive = true ∧ w.lock = some (j, ph) ∧ j ≠ i ∧
      w' = { w with raised := w.raised ++
        [(i, .processInTheWay s!"Another process is still locking {pidfile.path}")] } := by
  simp only [step] at h
  split at h
  · rename_i p j ph hp hl
    split at h
    · rename_i hc
      exact ⟨p, j, ph, hp, hc.1, hl, hc.2, (Option.some.inj h).symm⟩
    · cases h
  · cases h

theorem step_examine (h : step pidfile w (.examine i) = some w') :
    ∃ p, w.procs[i]? = some p ∧ p.alive = true ∧ w.lock = some (i, .locked) ∧
      ((w.content = none ∧ w' = { w with lock := some (i, .cleared) }) ∨
        (∃ text m, w.content = some text ∧ checkExisting pidfile w.findProcess text = .ok m ∧
          w' = { w with content := none, lock := some (i, .cleared) }) ∨
        ∃ text e, w.content = some text ∧ checkExisting pidfile w.findProcess text = .error e ∧
          w' = { w with raised := w.raised ++ [(i, e)], lock := none }) := by
  simp only [step] at h
  split at h
  · rename_i p j hp hl
    split at h
    · obtain ⟨ha, rfl⟩ := ‹p.alive = true ∧ j = i›
      refine ⟨p, hp, ha, hl, ?_⟩
      split at h
      · exact .inl ⟨‹_›, (Option.some.inj h).symm⟩
      · split at h
        · exact .inr (.inl ⟨_, _, ‹_›, ‹_›, (Option.some.inj h).symm⟩)
        · exact .inr (.inr ⟨_, _, ‹_›, ‹_›, (Option.some.inj h).symm⟩)
    · cases h
  · cases h

theorem step_openPidfile (h : step pidfile w (.openPidfile i) = some w') :
    ∃ p, w.procs[i]? = some p ∧ p.alive = true ∧ w.lock = some (i, .cleared) ∧
      ((∃ t, w.findProcess p.pid = .ok t ∧
          w' = { w with content := some "", lock := some (i, .opened t) }) ∨
        ∃ e, w.findProcess p.pid = .error e ∧
          w' = { w with raised := w.raised ++ [(i, e)], lock := none }) := by
  simp only [step] at h
  split at h
  · rename_i p j hp hl
    split at h
    · obtain ⟨ha, rfl⟩ := ‹p.alive = true ∧ j = i›
      refine ⟨p, hp, ha, hl, ?_⟩
      split at h
      · exact .inl ⟨_, ‹_›, (Option.some.inj h).symm⟩
      · exact .inr ⟨_, ‹_›, (Option.some.inj h).symm⟩
    · cases h
  · cases h

theorem step_write (h : step pidfile w (.write i) = some w') :
    ∃ p t, w.procs[i]? = some p ∧ p.alive = true ∧ w.lock = some (i, .opened t) ∧
      w' = { w with procs := w.procs.set i { p with holds := true },
                    content := some (pidLine p.pid t), lock := none } := by
  simp only [step] at h
  split at h
  · rename_i p j t hp hl
    split at h
    · obtain ⟨ha, rfl⟩ := ‹p.alive = true ∧ j = i›
      exact ⟨p, t, hp, ha, hl, (Option.some.inj h).symm⟩
    · cases h
  · cases h

theorem step_acquireCleanup (h : step pidfile w (.acquireCleanup i) = some w') :
    ∃ p, w.procs[i]? = some p ∧ p.alive = true ∧ p.holds = true ∧ w.lock = none ∧
      w' = { w with lock := some (i, .cleaning) } := by
  simp only [step] at h
  split at h
  · rename_i p hp hl
    split at h
    · rename_i hph
      simp only [Bool.and_eq_true] at hph
      exact ⟨p, hp, hph.1, hph.2, hl, (Option.some.inj h).symm⟩
    · cases h
  · cases h

theorem step_remove (h : step pidfile w (.remove i) = some w') :
    ∃ p, w.procs[i]? = some p ∧ p.alive = true ∧ w.lock = some (i, .cleaning) ∧
      w' = { w with procs := w.procs.set i { p with holds := false }, content := none,
                    raised := w.raised ++ raisedBy i (cleanupPidfile pidfile w.content),
                    lock := none } := by
  simp only [step] at h
  split at h
  · rename_i p j hp hl
    split at h
    · obtain ⟨ha, rfl⟩ := ‹p.alive = true ∧ j = i›
      exact ⟨p, hp, ha, hl, (Option.some.inj h).symm⟩
    · cases h
  · cases h

end

theorem parsePidfile_empty : parsePidfile "" = none := rfl

theorem pidLine_ne_empty (pid : Nat) (t : StartTime) : pidLine pid t ≠ "" := fun h => by
  simpa [h, parsePidfile_empty] using parsePidfile_pidLine pid t

def Phase.Ok (content : Option String) (p : Proc) : Phase → Prop
  | .locked => True
  | .cleared => content = none
  | .opened t => content = some "" ∧ t = p.startTime
  | .cleaning => p.holds = true

/-- What holds in every reachable state. -/
structure Inv (w : World) : Prop where
  pids_unique : PidsUnique w.procs
  holder_line : ∀ i p, Holder w.toWorld i p → w.content = some (pidLine p.pid p.startTime)
  owner : ∀ i ph, w.lock = some (i, ph) →
    ∃ p, w.procs[i]? = some p ∧ p.alive = true ∧ ph.Ok w.content p

theorem inv_init : Inv init where
  pids_unique := by simp [PidsUnique, init, PidWorld.init]
  holder_line := by simp [Holder, init, PidWorld.init]
  owner := by simp [init]

section
variable {pidfile : FilePath} {w w' : World} {i j : Nat} {p q : Proc}

theorem Inv.holder_unique (hi : Inv w) (hp : Holder w.toWorld i p) (hq : Holder w.toWorld j q) :
    i = j :=
  holder_unique_of_line hi.pids_unique hi.holder_line hp hq

theorem Inv.not_holder (hi : Inv w) (hc : w.content = none ∨ w.content = some "") :
    ¬Holder w.toWorld j q := fun hq => by
  have h := hi.holder_line j q hq
  rcases hc with hc | hc <;> rw [hc] at h
  · cases h
  · exact pidLine_ne_empty _ _ (Option.some.inj h).symm

theorem Inv.spawn {pid : Nat} {t : StartTime} (hi : Inv w)
    (hs : ∀ (j : Nat) (q : Proc), w.procs[j]? = some q → q.alive = true → q.pid ≠ pid) :
    Inv { w with procs := w.procs ++ [⟨pid, t, true, false⟩] } where
  pids_unique := hi.pids_unique.concat hs
  holder_line j q hq := hi.holder_line j q (holder_of_concat hq)
  owner k ph hl :=
    have ⟨q, hq, hqa, hok⟩ := hi.owner k ph hl
    ⟨q, getElem?_concat_of_some hq, hqa, hok⟩

theorem Inv.crash (hi : Inv w) (hp : w.procs[i]? = some p) :
    Inv { w with procs := w.procs.set i { p with alive := false },
                 lock := w.lock.filter fun s => s.1 != i } where
  pids_unique := hi.pids_unique.set hp rfl (by simp)
  holder_line j q hq := hi.holder_line j q (holder_of_crash hq)
  owner k ph hl := by
    obtain ⟨hl, hk⟩ := Option.filter_eq_some.1 hl
    obtain ⟨q, hq, hqa, hok⟩ := hi.owner k ph hl
    refine ⟨q, ?_, hqa, hok⟩
    rw [List.getElem?_set_ne fun h => by simp [h] at hk, hq]

theorem Inv.take {ph : Phase} (hi : Inv w) (hp : w.procs[i]? = some p) (ha : p.alive = true)
    (hok : ph.Ok w.content p) : Inv { w with lock := some (i, ph) } where
  pids_unique := hi.pids_unique
  holder_line := hi.holder_line
  owner k ph' hl := by
    cases hl
    exact ⟨p, hp, ha, hok⟩

theorem Inv.raise {e : List (Nat × PidError)} {lock : Option (Nat × Phase)} (hi : Inv w)
    (hl : ∀ i ph, lock = some (i, ph) → w.lock = some (i, ph)) :
    Inv { w with raised := w.raised ++ e, lock := lock } where
  pids_unique := hi.pids_unique
  holder_line := hi.holder_line
  owner k ph h := hi.owner k ph (hl k ph h)

theorem Inv.examine (hi : Inv w) (h : step pidfile w (.examine i) = some w') : Inv w' := by
  obtain ⟨p, hp, ha, -, ⟨hc, rfl⟩ | ⟨text, m, ht, hx, rfl⟩ | ⟨text, e, -, -, rfl⟩⟩ := step_examine h
  · refine ⟨hi.pids_unique, hi.holder_line, fun k ph hl => ?_⟩
    cases hl
    exact ⟨p, hp, ha, hc⟩
  · refine ⟨hi.pids_unique, fun j q hq => absurd hq fun hq => ?_, fun k ph hl => ?_⟩
    · obtain ⟨pid, n, hpar, hf⟩ := checkExisting_ok pidfile _ hx
      rw [Option.some.inj ((hi.holder_line j q hq).symm.trans ht).symm] at hpar
      exact holder_not_stale hq hpar hf
    · cases hl
      exact ⟨p, hp, ha, rfl⟩
  · exact hi.raise fun _ _ h => nomatch h

theorem Inv.openPidfile (hi : Inv w) (h : step pidfile w (.openPidfile i) = some w') :
    Inv w' := by
  obtain ⟨p, hp, ha, hl, ⟨t, ht, rfl⟩ | ⟨e, -, rfl⟩⟩ := step_openPidfile h
  · obtain ⟨q, -, -, hc⟩ := hi.owner i _ hl
    refine ⟨hi.pids_unique, fun j r hr => absurd hr (hi.not_holder (.inl hc)), fun k ph hl' => ?_⟩
    cases hl'
    rw [findProcess_alive hi.pids_unique hp ha, Except.ok.injEq] at ht
    exact ⟨p, hp, ha, rfl, ht.symm⟩
  · exact hi.raise fun _ _ h => nomatch h

theorem Inv.write (hi : Inv w) (h : step pidfile w (.write i) = some w') : Inv w' := by
  obtain ⟨p, t, hp, ha, hl, rfl⟩ := step_write h
  obtain ⟨q, hq, -, hc, rfl⟩ := hi.owner i _ hl
  cases hp.symm.trans hq
  refine ⟨hi.pids_unique.set hp rfl id, fun j r hr => ?_, fun k ph h => nomatch h⟩
  rcases getElem?_set_eq_some hr.1 with ⟨-, rfl⟩ | ⟨-, h⟩
  · rfl
  · exact absurd ⟨h, hr.2⟩ (hi.not_holder (.inr hc))

theorem Inv.remove (hi : Inv w) (h : step pidfile w (.remove i) = some w') : Inv w' := by
  obtain ⟨p, hp, ha, hl, rfl⟩ := step_remove h
  obtain ⟨q, hq, -, hh⟩ := hi.owner i _ hl
  cases hp.symm.trans hq
  refine ⟨hi.pids_unique.set hp rfl id, fun j r hr => ?_, fun k ph h => nomatch h⟩
  have ⟨hj, hr⟩ := holder_of_release hr
  exact absurd (hi.holder_unique hr ⟨hp, ha, hh⟩) hj

theorem Inv.step {ev : Event} (hi : Inv w) (h : step pidfile w ev = some w') : Inv w' := by
  cases ev with
  | spawn pid t =>
    obtain ⟨hs, rfl⟩ := step_spawn h
    exact hi.spawn hs
  | crash i =>
    obtain ⟨p, hp, -, rfl⟩ := step_crash h
    exact hi.crash hp
  | acquire i =>
    obtain ⟨p, hp, ha, -, rfl⟩ := step_acquire h
    exact hi.take hp ha trivial
  | timeout i =>
    obtain ⟨-, -, -, -, -, -, -, rfl⟩ := step_timeout h
    exact hi.raise fun _ _ => id
  | examine i => exact hi.examine h
  | openPidfile i => exact hi.openPidfile h
  | write i => exact hi.write h
  | acquireCleanup i =>
    obtain ⟨p, hp, ha, hh, -, rfl⟩ := step_acquireCleanup h
    exact hi.take hp ha hh
  | remove i => exact hi.remove h

theorem Reachable.inv (h : Reachable pidfile w) : Inv w := by
  induction h with
  | init => exact inv_init
  | step _ _ hs ih => exact ih.step hs

theorem examine_of_holder (hi : Inv w) (hp : Holder w.toWorld i p)
    (hl : w.lock = some (j, .locked)) :
    step pidfile w (.examine j) = some { w with
      raised := w.raised ++ [(j, .processInTheWay s!"A process is already running as PID {p.pid}")],
      lock := none } := by
  obtain ⟨q, hq, hqa, -⟩ := hi.owner j _ hl
  have hx : checkExisting pidfile w.findProcess (pidLine p.pid p.startTime) =
      .error (.processInTheWay s!"A process is already running as PID {p.pid}") := by
    simp [checkExisting, parsePidfile_pidLine, findProcess_alive hi.pids_unique hp.1 hp.2.1]
    rfl
  simp [step, hq, hqa, hl, hi.holder_line i p hp, hx]

/-- The pidfile admits one live process, also with each call cut into its statements and a
process dying between any two of them: at most one live process holds the pidfile; while one
does, the pidfile is its line, the `FileLock` is held only by a process that has not read the
pidfile yet or by the holder cleaning up, and a process that reads it raises `ProcessInTheWay`
and releases the lock, leaving the processes and the pidfile as they were. -/
structure SingleHolder (pidfile : FilePath) (w : World) : Prop where
  unique : ∀ i j p q, Holder w.toWorld i p → Holder w.toWorld j q → i = j
  holder_line : ∀ i p, Holder w.toWorld i p → w.content = some (pidLine p.pid p.startTime)
  lock_phase : ∀ i p, Holder w.toWorld i p → ∀ j ph, w.lock = some (j, ph) →
    ph = .locked ∨ (j = i ∧ ph = .cleaning)
  examine_refused : ∀ i p, Holder w.toWorld i p → ∀ j, w.lock = some (j, .locked) →
    ∃ msg, step pidfile w (.examine j) =
      some { w with raised := w.raised ++ [(j, .processInTheWay msg)], lock := none }

theorem steps_single_holder (hw : Reachable pidfile w) : SingleHolder pidfile w := by
  have hi := hw.inv
  refine ⟨fun i j p q => hi.holder_unique, hi.holder_line, fun i p hp j ph hl => ?_,
    fun i p hp j hl => ⟨_, examine_of_holder hi hp hl⟩⟩
  obtain ⟨q, hq, hqa, hok⟩ := hi.owner j ph hl
  cases ph with
  | locked => exact .inl rfl
  | cleared => exact absurd hp (hi.not_holder (.inl hok))
  | opened t => exact absurd hp (hi.not_holder (.inr hok.1))
  | cleaning => exact .inr ⟨hi.holder_unique ⟨hq, hqa, hok⟩ hp, rfl⟩

/-- Process 0, pid 7, runs `check_pid_process` through; then process 1, pid 8, takes the lock. -/
def waitingRun : List Event :=
  [.spawn 7 firstStart, .acquire 0, .examine 0, .openPidfile 0, .write 0, .spawn 8 secondStart,
    .acquire 1]

def whileWaiting : World :=
  ⟨⟨[⟨7, firstStart, true, true⟩, ⟨8, secondStart, true, false⟩], some "7 1700000000.25\n", []⟩,
    some (1, .locked)⟩

theorem steps_single_holder_while_waiting :
    Reachable runningProcess whileWaiting ∧ SingleHolder runningProcess whileWaiting :=
  have h := Reachable.init.run runningProcess
    (show run _ init waitingRun = some whileWaiting from rfl)
  ⟨h, steps_single_holder h⟩

/-- The pidfile is empty and no process is about to write it: what a process leaves behind
when it dies between `pidfile.open("w")` and the end of its write. -/
def Emptied (w : World) : Prop :=
  w.content = some "" ∧ ∀ i t, w.lock ≠ some (i, .opened t)

theorem checkExisting_empty (findProcess : Int → Except PidError StartTime) :
    checkExisting pidfile findProcess "" =
      .error (.invalidPidFile s!"found invalid PID file in FilePath('{pidfile.path}')") :=
  rfl

theorem Emptied.step {ev : Event} (hi : Inv w) (he : Emptied w)
    (h : step pidfile w ev = some w') : Emptied w' := by
  obtain ⟨hc, hno⟩ := he
  cases ev with
  | spawn pid t =>
    obtain ⟨-, rfl⟩ := step_spawn h
    exact ⟨hc, hno⟩
  | crash i =>
    obtain ⟨p, -, -, rfl⟩ := step_crash h
    exact ⟨hc, fun j t hl => hno j t (Option.filter_eq_some.1 hl).1⟩
  | acquire i =>
    obtain ⟨-, -, -, -, rfl⟩ := step_acquire h
    exact ⟨hc, fun j t h => nomatch h⟩
  | timeout i =>
    obtain ⟨-, -, -, -, -, -, -, rfl⟩ := step_timeout h
    exact ⟨hc, hno⟩
  | examine i =>
    obtain ⟨p, -, -, -, ⟨hn, -⟩ | ⟨text, m, ht, hx, -⟩ | ⟨-, -, -, -, rfl⟩⟩ := step_examine h
    · exact nomatch hc.symm.trans hn
    · cases hc.symm.trans ht
      exact nomatch (checkExisting_empty _).symm.trans hx
    · exact ⟨hc, fun j t h => nomatch h⟩
  | openPidfile i =>
    obtain ⟨-, -, -, hl, -⟩ := step_openPidfile h
    obtain ⟨q, -, -, hn⟩ := hi.owner i _ hl
    exact nomatch hc.symm.trans hn
  | write i =>
    obtain ⟨-, t, -, -, hl, -⟩ := step_write h
    exact absurd hl (hno i t)
  | acquireCleanup i =>
    obtain ⟨p, hp, ha, hh, -, -⟩ := step_acquireCleanup h
    exact absurd ⟨hp, ha, hh⟩ (hi.not_holder (.inr hc))
  | remove i =>
    obtain ⟨-, -, -, hl, -⟩ := step_remove h
    obtain ⟨q, hq, hqa, hh⟩ := hi.owner i _ hl
    exact absurd ⟨hq, hqa, hh⟩ (hi.not_holder (.inr hc))

theorem Emptied.run {evs : List Event} (hw : Reachable pidfile w) (he : Emptied w)
    (h : run pidfile w evs = some w') : Emptied w' := by
  induction evs generalizing w with
  | nil => cases h; exact he
  | cons ev evs ih =>
    obtain ⟨w₁, h₁, h⟩ := Option.bind_eq_some.1 h
    exact ih (hw.step ev h₁) (he.step hw.inv h₁) h

/-- A death between opening the pidfile for writing and finishing the write empties it. -/
theorem emptied_of_crash {t : StartTime} (hi : Inv w) (hl : w.lock = some (i, .opened t))
    (h : step pidfile w (.crash i) = some w') : Emptied w' := by
  obtain ⟨p, -, -, rfl⟩ := step_crash h
  obtain ⟨q, -, -, hc, -⟩ := hi.owner i _ hl
  refine ⟨hc, fun j t' h' => ?_⟩
  -- the lock was the dead process's, and the operating system released it
  simp [hl] at h'
  exact h'.2 h'.1.1.symm

/-- A process that dies between opening the pidfile for writing and finishing its write leaves
it empty for good: after any run from there the pidfile is still empty, no process holds it,
and every process that takes the `FileLock` in `check_pid_process` raises `InvalidPidFile` on
reading it. -/
theorem emptied_pidfile_stays {evs : List Event} (hw : Reachable pidfile w) (he : Emptied w)
    (h : run pidfile w evs = some w') :
    w'.content = some "" ∧ (∀ i p, ¬Holder w'.toWorld i p) ∧
      ∀ i, w'.lock = some (i, .locked) →
        step pidfile w' (.examine i) = some { w' with
          raised := w'.raised ++
            [(i, .invalidPidFile s!"found invalid PID file in FilePath('{pidfile.path}')")],
          lock := none } := by
  have hi := (hw.run _ h).inv
  obtain ⟨hc, -⟩ := he.run hw h
  refine ⟨hc, fun i p => hi.not_holder (.inr hc), fun i hl => ?_⟩
  obtain ⟨q, hq, hqa, -⟩ := hi.owner i _ hl
  simp [step, hq, hqa, hl, hc, checkExisting_empty]

/-- Process 0, pid 7, takes the lock, finds no pidfile, opens it for writing and dies before
writing it. -/
def diesWhileWriting : List Event :=
  [.spawn 7 firstStart, .acquire 0, .examine 0, .openPidfile 0, .crash 0]

def whileWriting : World :=
  ⟨⟨[⟨7, firstStart, true, false⟩], some "", []⟩, some (0, .opened firstStart)⟩

def afterDeath : World := ⟨⟨[⟨7, firstStart, false, false⟩], some "", []⟩, none⟩

def afterRetry : World :=
  ⟨⟨[⟨7, firstStart, false, false⟩, ⟨8, secondStart, true, false⟩], some "", []⟩, some (1, .locked)⟩

theorem emptied_pidfile_stays_after_death :
    Reachable runningProcess afterDeath ∧ Emptied afterDeath ∧
      run runningProcess afterDeath [.spawn 8 secondStart, .acquire 1] = some afterRetry ∧
      afterRetry.content = some "" ∧ (∀ i p, ¬Holder afterRetry.toWorld i p) ∧
      ∀ i, afterRetry.lock = some (i, .locked) →
        step runningProcess afterRetry (.examine i) = some { afterRetry with
          raised := afterRetry.raised ++ [(i, .invalidPidFile
            s!"found invalid PID file in FilePath('{runningProcess.path}')")],
          lock := none } :=
  have hw₀ : Reachable runningProcess whileWriting := Reachable.init.run runningProcess
    (show run _ init [.spawn 7 firstStart, .acquire 0, .examine 0, .openPidfile 0] =
      some whileWriting from rfl)
  have hd : step runningProcess whileWriting (.crash 0) = some afterDeath := rfl
  have hw : Reachable runningProcess afterDeath := hw₀.step _ hd
  have he : Emptied afterDeath := emptied_of_crash hw₀.inv rfl hd
  have h : run runningProcess afterDeath [.spawn 8 secondStart, .acquire 1] = some afterRetry :=
    rfl
  ⟨hw, he, h, emptied_pidfile_stays hw he h⟩

end

/-- The lock events a step may be: the write that ends `check_pid_process` acquires, a crash or
the removal in `cleanup_pidfile` releases, each for the process that takes the step. -/
def Implements : Event → LockEvent → Prop
  | .write i, .acquire j => i = j
  | .crash i, .release j => i = j
  | .remove i, .release j => i = j
  | _, _ => False

section
variable {pidfile : FilePath} {w w' : World}

theorem Inv.oneHolder (hi : Inv w) : OneHolder w.toWorld := fun _ _ _ _ => hi.holder_unique

/-- Every step is a step of the lock by the process that takes it, or leaves the holder as it
was: the pidfile changes hands only at the end of a write and at the holder's death or
removal of the pidfile. -/
theorem step_refines_lock {ev : Event} (hw : Reachable pidfile w)
    (h : step pidfile w ev = some w') :
    holder w'.toWorld = holder w.toWorld ∨
      ∃ e, Implements ev e ∧ lockStep (holder w.toWorld) e = some (holder w'.toWorld) := by
  have hi := hw.inv
  have hu := hi.oneHolder
  have hu' := (hw.step ev h).inv.oneHolder
  cases ev with
  | spawn pid t =>
    obtain ⟨-, rfl⟩ := step_spawn h
    exact .inl (by simp [holder])
  | crash i =>
    obtain ⟨p, hp, -, rfl⟩ := step_crash h
    rw [holder_after_drop hu hu' rfl fun _ => not_holder_set rfl hp (.inl rfl)]
    split_ifs with hh
    · exact .inr ⟨.release i, rfl, by simp [lockStep, hh]⟩
    · exact .inl rfl
  | acquire i =>
    obtain ⟨-, -, -, -, rfl⟩ := step_acquire h
    exact .inl rfl
  | timeout i =>
    obtain ⟨-, -, -, -, -, -, -, rfl⟩ := step_timeout h
    exact .inl rfl
  | examine i =>
    obtain ⟨-, -, -, -, ⟨-, rfl⟩ | ⟨-, -, -, -, rfl⟩ | ⟨-, -, -, -, rfl⟩⟩ := step_examine h <;>
      exact .inl rfl
  | openPidfile i =>
    obtain ⟨-, -, -, -, ⟨-, -, rfl⟩ | ⟨-, -, rfl⟩⟩ := step_openPidfile h <;> exact .inl rfl
  | write i =>
    obtain ⟨p, t, hp, ha, hl, rfl⟩ := step_write h
    obtain ⟨q, -, -, hc, -⟩ := hi.owner i _ hl
    have hnone : holder w.toWorld = none := holder_eq_none.2 fun _ _ => hi.not_holder (.inr hc)
    have hnew := (holder_eq_some (i := i) hu').2 ⟨_, getElem?_set_of_some hp, ha, rfl⟩
    exact .inr ⟨.acquire i, rfl, by rw [hnone, hnew]; rfl⟩
  | acquireCleanup i =>
    obtain ⟨-, -, -, -, -, rfl⟩ := step_acquireCleanup h
    exact .inl rfl
  | remove i =>
    obtain ⟨p, hp, ha, hl, rfl⟩ := step_remove h
    obtain ⟨q, hq, -, hh⟩ := hi.owner i _ hl
    cases hp.symm.trans hq
    have hw : holder w.toWorld = some i := (holder_eq_some hu).2 ⟨p, hp, ha, hh⟩
    rw [holder_after_drop hu hu' rfl fun _ => not_holder_set rfl hp (.inr rfl), if_pos hw, hw]
    exact .inr ⟨.release i, rfl, by simp [lockStep]⟩

theorem lockTrace_of_run {evs : List Event} (hw : Reachable pidfile w)
    (h : run pidfile w evs = some w') :
    LockTrace (·.toWorld) (step pidfile) Implements w evs w' := by
  induction evs generalizing w with
  | nil =>
    cases h
    exact .done hw.inv.oneHolder
  | cons ev evs ih =>
    obtain ⟨w₁, h₁, h⟩ := Option.bind_eq_some.1 h
    exact .cons hw.inv.oneHolder h₁ (step_refines_lock hw h₁) (ih (hw.step ev h₁) h)

/-- Every run of the statement-level machine from its start is a run of the lock from free:
every state it passes through has at most one holder, every step keeps the holder or is one
step of the lock by the process that takes it, and the lock events, in order, take the lock
from free to the last holder. -/
theorem steps_refine_lock {evs : List Event} (h : run pidfile init evs = some w) :
    LockTrace (·.toWorld) (step pidfile) Implements init evs w ∧
      ∃ es : List (Option LockEvent), List.Forall₂ (fun ev oe => ∀ e ∈ oe, Implements ev e) evs es ∧
        lockRun none (es.filterMap id) = some (holder w.toWorld) :=
  have ht := lockTrace_of_run .init h
  ⟨ht, ht.lockRun⟩

theorem steps_refine_lock_while_waiting :
    run runningProcess init waitingRun = some whileWaiting ∧
      LockTrace (·.toWorld) (step runningProcess) Implements init waitingRun whileWaiting ∧
      ∃ es : List (Option LockEvent),
        List.Forall₂ (fun ev oe => ∀ e ∈ oe, Implements ev e) waitingRun es ∧
          lockRun none (es.filterMap id) = some (holder whileWaiting.toWorld) :=
  have h : run runningProcess init waitingRun = some whileWaiting := rfl
  ⟨h, steps_refine_lock h⟩

end

/-! Progress: the lock is not only safe but can be taken. -/
section
variable {pidfile : FilePath} {w : World} {i : Nat} {p : Proc}

def checkRun (i : Nat) : List Event := [.acquire i, .examine i, .openPidfile i, .write i]

/-- With the lock free and the pidfile missing or stale, a live process runs
`check_pid_process` through without raising: it holds the pidfile, which is its line. -/
theorem check_completes (hw : Reachable pidfile w) (hp : w.procs[i]? = some p)
    (ha : p.alive = true) (hl : w.lock = none)
    (hc : ∀ text ∈ w.content, ∃ m, checkExisting pidfile w.findProcess text = .ok m) :
    run pidfile w (checkRun i) =
      some { w with procs := w.procs.set i { p with holds := true },
                    content := some (pidLine p.pid p.startTime), lock := none } := by
  have hu := hw.inv.pids_unique
  obtain ⟨⟨procs, content, raised⟩, lock⟩ := w
  subst hl
  -- the process's own start time, read once the pidfile is gone
  have hf : World.findProcess ⟨procs, none, raised⟩ p.pid = .ok p.startTime :=
    findProcess_alive hu hp ha
  cases content with
  | none => simp only [run, checkRun, step, hp, ha, hf, ↓reduceIte, Option.some_bind, and_self]
  | some text =>
    obtain ⟨m, hm⟩ := hc text rfl
    simp only [run, checkRun, step, hp, ha, hf, hm, ↓reduceIte, Option.some_bind, and_self]

/-- Process 0, pid 7, took the pidfile and died; process 1, pid 8, has started. -/
def crashRun : List Event :=
  [.spawn 7 firstStart, .acquire 0, .examine 0, .openPidfile 0, .write 0, .crash 0,
    .spawn 8 secondStart]

def afterCrash : World :=
  ⟨⟨[⟨7, firstStart, false, true⟩, ⟨8, secondStart, true, false⟩], some "7 1700000000.25\n", []⟩,
    none⟩

theorem check_completes_after_crash :
    Reachable runningProcess afterCrash ∧
      run runningProcess afterCrash (checkRun 1) = some ⟨⟨[⟨7, firstStart, false, true⟩,
        ⟨8, secondStart, true, true⟩], some "8 1700000600.75\n", []⟩, none⟩ :=
  have h := Reachable.init.run runningProcess
    (show run _ init crashRun = some afterCrash from rfl)
  ⟨h, check_completes h (p := ⟨8, secondStart, true, false⟩) rfl rfl rfl
    fun _ ht => by cases ht; exact ⟨_, rfl⟩⟩

end

end TahoeLafs.PidSteps
