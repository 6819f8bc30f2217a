import TahoeLafs.PidSteps

/-! Which exceptions `check_pid_process` and `cleanup_pidfile` raise, over every run of the
statement-level model. Processes may die between any two statements, and still the calls raise
only `ProcessInTheWay` and `InvalidPidFile`: never `CannotRemovePidFile`, and never an exception
of `find_process`. `InvalidPidFile` needs a death between opening the pidfile and finishing the
write: in the runs without one, only `ProcessInTheWay` is raised. -/
namespace TahoeLafs.PidRaises
open PidText PidCheck
open PidWorld (runningProcess firstStart secondStart)

/-- The exceptions the calls raise, with their messages: the `FileLock` timed out, the pidfile
names a running process, or the pidfile is not a line the calls write. -/
inductive Raisable (pidfile : FilePath) : PidError → Prop
  | locking :
      Raisable pidfile (.processInTheWay s!"Another process is still locking {pidfile.path}")
  | running (pid : Int) :
      Raisable pidfile (.processInTheWay s!"A process is already running as PID {pid}")
  | invalid :
      Raisable pidfile (.invalidPidFile s!"found invalid PID file in FilePath('{pidfile.path}')")

/-- The pidfile is missing, empty (opened for writing, not yet written) or a line the calls
write, and every exception raised so far is `Raisable`. -/
structure Raises (pidfile : FilePath) (w : PidSteps.World) : Prop where
  content : ∀ text ∈ w.content, text = "" ∨ ∃ (pid : Nat) (t : StartTime), text = pidLine pid t
  raised : ∀ r ∈ w.raised, Raisable pidfile r.2

section
variable {pidfile : FilePath} {w w' : PidSteps.World}

theorem raises_init : Raises pidfile PidSteps.init :=
  ⟨by rintro _ ⟨⟩, by rintro _ ⟨⟩⟩

theorem forall_raisable_snoc {raised : List (Nat × PidError)} {i : Nat} {e : PidError}
    (hr : ∀ r ∈ raised, Raisable pidfile r.2) (he : Raisable pidfile e) :
    ∀ r ∈ raised ++ [(i, e)], Raisable pidfile r.2 :=
  List.forall_mem_append.2 ⟨hr, List.forall_mem_singleton.2 he⟩

theorem checkExisting_pidLine_error {v : PidWorld.World} {pid : Nat} {t : StartTime}
    {e : PidError} (h : checkExisting pidfile v.findProcess (pidLine pid t) = .error e) :
    e = .processInTheWay s!"A process is already running as PID {(pid : Int)}" := by
  rcases checkExisting_error pidfile _ h with ⟨hp, -⟩ | ⟨n, hp, ⟨t', -, rfl⟩ | ⟨hf, hne⟩⟩ <;>
    rw [parsePidfile_pidLine] at hp <;> cases hp
  · rfl
  · rcases PidWorld.findProcess_error hf with hneg | ⟨rfl, -⟩
    · omega
    · exact absurd rfl (hne _)

theorem checkExisting_raisable {v : PidWorld.World} {text : String} {e : PidError}
    (hc : text = "" ∨ ∃ (pid : Nat) (t : StartTime), text = pidLine pid t)
    (h : checkExisting pidfile v.findProcess text = .error e) : Raisable pidfile e := by
  rcases hc with rfl | ⟨pid, t, rfl⟩
  · rw [PidSteps.checkExisting_empty] at h
    cases h
    exact .invalid
  · rw [checkExisting_pidLine_error h]
    exact .running _

theorem Raises.step {ev : PidSteps.Event} (hi : PidSteps.Inv w) (h : Raises pidfile w)
    (hs : PidSteps.step pidfile w ev = some w') : Raises pidfile w' := by
  obtain ⟨hc, hr⟩ := h
  cases ev with
  | spawn pid t =>
    obtain ⟨-, rfl⟩ := PidSteps.step_spawn hs
    exact ⟨hc, hr⟩
  | crash i =>
    obtain ⟨-, -, -, rfl⟩ := PidSteps.step_crash hs
    exact ⟨hc, hr⟩
  | acquire i =>
    obtain ⟨-, -, -, -, rfl⟩ := PidSteps.step_acquire hs
    exact ⟨hc, hr⟩
  | timeout i =>
    obtain ⟨-, -, -, -, -, -, -, rfl⟩ := PidSteps.step_timeout hs
    exact ⟨hc, forall_raisable_snoc hr .locking⟩
  | examine i =>
    obtain ⟨-, -, -, -, ⟨-, rfl⟩ | ⟨-, -, -, -, rfl⟩ | ⟨text, e, ht, hx, rfl⟩⟩ :=
      PidSteps.step_examine hs
    · exact ⟨hc, hr⟩
    · exact ⟨by rintro _ ⟨⟩, hr⟩
    · exact ⟨hc, forall_raisable_snoc hr (checkExisting_raisable (hc text ht) hx)⟩
  | openPidfile i =>
    obtain ⟨p, hp, ha, -, ⟨t, -, rfl⟩ | ⟨e, he, rfl⟩⟩ := PidSteps.step_openPidfile hs
    · exact ⟨fun _ h => .inl (Option.some.inj h).symm, hr⟩
    · -- the caller is alive, so `find_process` finds it
      rw [PidWorld.findProcess_alive hi.pids_unique hp ha] at he
      cases he
  | write i =>
    obtain ⟨p, t, -, -, -, rfl⟩ := PidSteps.step_write hs
    exact ⟨fun _ h => .inr ⟨p.pid, t, (Option.some.inj h).symm⟩, hr⟩
  | acquireCleanup i =>
    obtain ⟨-, -, -, -, -, rfl⟩ := PidSteps.step_acquireCleanup hs
    exact ⟨hc, hr⟩
  | remove i =>
    obtain ⟨p, hp, ha, hl, rfl⟩ := PidSteps.step_remove hs
    obtain ⟨q, hq, -, hh⟩ := hi.owner i _ hl
    cases hp.symm.trans hq
    -- the process removing the pidfile holds it, so there is a pidfile to remove
    rw [hi.holder_line i p ⟨hp, ha, hh⟩]
    refine ⟨by rintro _ ⟨⟩, ?_⟩
    simpa only [cleanupPidfile, Except.pure_eq, PidWorld.raisedBy, List.append_nil] using hr

theorem raises_of_reachable (hw : PidSteps.Reachable pidfile w) : Raises pidfile w := by
  induction hw with
  | init => exact raises_init
  | step _ hw hs ih => exact ih.step hw.inv hs

/-- Whichever processes die where, `check_pid_process` and `cleanup_pidfile` raise only
`ProcessInTheWay` (the lock is taken, or a process runs at the pidfile's pid) and
`InvalidPidFile`: never `CannotRemovePidFile`, and never an exception of `find_process`. -/
theorem steps_raise_only (hw : PidSteps.Reachable pidfile w) :
    ∀ r ∈ w.raised, Raisable pidfile r.2 :=
  (raises_of_reachable hw).raised

/-- Process 0 dies with the pidfile opened for writing; process 1, pid 8, then finds it
empty. -/
def invalidRun : List PidSteps.Event :=
  PidSteps.diesWhileWriting ++ [.spawn 8 secondStart, .acquire 1, .examine 1]

def afterInvalid : PidSteps.World :=
  ⟨⟨[⟨7, firstStart, false, false⟩, ⟨8, secondStart, true, false⟩], some "",
    [(1, .invalidPidFile "found invalid PID file in FilePath('/node/running.process')")]⟩, none⟩

theorem steps_raise_only_after_death :
    PidSteps.Reachable runningProcess afterInvalid ∧
      ∀ r ∈ afterInvalid.raised, Raisable runningProcess r.2 :=
  have hw := PidSteps.Reachable.init.run runningProcess
    (show PidSteps.run _ PidSteps.init invalidRun = some afterInvalid from rfl)
  ⟨hw, steps_raise_only hw⟩

def opener (w : PidSteps.World) : Option Nat :=
  match w.lock with
  | some (i, .opened _) => some i
  | _ => none

/-- Runs in which no process dies between opening the pidfile for writing and finishing its
write; a process may die anywhere else, also between reading the pidfile and opening it. -/
def intactRun (pidfile : FilePath) :
    PidSteps.World → List PidSteps.Event → Option PidSteps.World :=
  PidSteps.runSparing pidfile opener

/-- Along such a run an empty pidfile is being written by the holder of the `FileLock`, and
every exception raised is `ProcessInTheWay`, for the lock or for a running process. -/
structure Intact (pidfile : FilePath) (w : PidSteps.World) : Prop where
  being_written : w.content = some "" → ∃ i t, w.lock = some (i, .opened t)
  raised : ∀ r ∈ w.raised,
    r.2 = .processInTheWay s!"Another process is still locking {pidfile.path}" ∨
      ∃ pid : Int, r.2 = .processInTheWay s!"A process is already running as PID {pid}"

theorem Intact.not_empty (h : Intact pidfile w) (hl : ∀ i t, w.lock ≠ some (i, .opened t)) :
    w.content ≠ some "" := fun hc =>
  let ⟨i, t, hk⟩ := h.being_written hc
  hl i t hk

theorem Intact.step {ev : PidSteps.Event} (hi : PidSteps.Inv w) (hr : Raises pidfile w)
    (h : Intact pidfile w) (hs : PidSteps.stepSparing pidfile opener w ev = some w') :
    Intact pidfile w' := by
  obtain ⟨hs, hspared⟩ := PidSteps.stepSparing_step hs
  cases ev with
  | spawn pid t =>
    obtain ⟨-, rfl⟩ := PidSteps.step_spawn hs
    exact ⟨h.being_written, h.raised⟩
  | crash i =>
    obtain ⟨p, -, -, rfl⟩ := PidSteps.step_crash hs
    refine ⟨fun hc => ?_, h.raised⟩
    obtain ⟨k, t, hk⟩ := h.being_written hc
    -- the process writing the pidfile is not the one that dies
    have hki : k ≠ i := fun hki => hspared i rfl (by simp [opener, hk, hki])
    exact ⟨k, t, by simp [hk, hki]⟩
  | acquire i =>
    obtain ⟨-, -, -, hl, rfl⟩ := PidSteps.step_acquire hs
    exact ⟨fun hc => absurd hc (h.not_empty (by simp [hl])), h.raised⟩
  | timeout i =>
    obtain ⟨-, -, -, -, -, -, -, rfl⟩ := PidSteps.step_timeout hs
    exact ⟨h.being_written,
      List.forall_mem_append.2 ⟨h.raised, List.forall_mem_singleton.2 (.inl rfl)⟩⟩
  | examine i =>
    obtain ⟨-, -, -, hl, ⟨hn, rfl⟩ | ⟨-, -, -, -, rfl⟩ | ⟨text, e, ht, hx, rfl⟩⟩ :=
      PidSteps.step_examine hs
    · exact ⟨fun hc => (nomatch hn.symm.trans hc), h.raised⟩
    · exact ⟨(nomatch ·), h.raised⟩
    · -- the process reading holds the lock, so the pidfile is not empty: it is a written line
      have hnot := h.not_empty (by simp [hl])
      refine ⟨fun hc => absurd hc hnot, List.forall_mem_append.2 ⟨h.raised, ?_⟩⟩
      rcases hr.content text ht with rfl | ⟨pid, t, rfl⟩
      · exact absurd ht hnot
      · exact List.forall_mem_singleton.2 (.inr ⟨_, checkExisting_pidLine_error hx⟩)
  | openPidfile i =>
    obtain ⟨p, hp, ha, -, ⟨t, -, rfl⟩ | ⟨e, he, rfl⟩⟩ := PidSteps.step_openPidfile hs
    · exact ⟨fun _ => ⟨i, t, rfl⟩, h.raised⟩
    · rw [PidWorld.findProcess_alive hi.pids_unique hp ha] at he
      cases he
  | write i =>
    obtain ⟨p, t, -, -, -, rfl⟩ := PidSteps.step_write hs
    exact ⟨fun hc => absurd (Option.some.inj hc) (PidSteps.pidLine_ne_empty _ _), h.raised⟩
  | acquireCleanup i =>
    obtain ⟨-, -, -, -, hl, rfl⟩ := PidSteps.step_acquireCleanup hs
    exact ⟨fun hc => absurd hc (h.not_empty (by simp [hl])), h.raised⟩
  | remove i =>
    obtain ⟨p, hp, ha, hl, rfl⟩ := PidSteps.step_remove hs
    obtain ⟨q, hq, -, hh⟩ := hi.owner i _ hl
    cases hp.symm.trans hq
    -- the process removing the pidfile holds it, so there is a pidfile to remove
    rw [hi.holder_line i p ⟨hp, ha, hh⟩]
    refine ⟨(nomatch ·), ?_⟩
    simpa only [cleanupPidfile, Except.pure_eq, PidWorld.raisedBy, List.append_nil] using h.raised

theorem intact_of_run {evs : List PidSteps.Event} (hw : PidSteps.Reachable pidfile w)
    (h : Intact pidfile w) (hrun : intactRun pidfile w evs = some w') : Intact pidfile w' := by
  induction evs generalizing w with
  | nil =>
    cases hrun
    exact h
  | cons ev evs ih =>
    obtain ⟨w₁, h₁, hrun⟩ := Option.bind_eq_some.1 hrun
    exact ih (hw.step ev (PidSteps.stepSparing_step h₁).1)
      (h.step hw.inv (raises_of_reachable hw) h₁) hrun

/-- In the runs where no process dies between opening the pidfile for writing and finishing its
write, the calls raise only `ProcessInTheWay`: that the lock is taken, or that a process runs at
the pidfile's pid. A death anywhere else, also between reading the pidfile and opening it,
leaves no empty pidfile behind. -/
theorem intact_runs_raise_in_the_way {evs : List PidSteps.Event}
    (h : intactRun pidfile PidSteps.init evs = some w) :
    ∀ r ∈ w.raised,
      r.2 = .processInTheWay s!"Another process is still locking {pidfile.path}" ∨
        ∃ pid : Int, r.2 = .processInTheWay s!"A process is already running as PID {pid}" :=
  (intact_of_run .init ⟨(nomatch ·), fun _ h => nomatch h⟩ h).raised

/-- Process 0, pid 7, dies after finding no pidfile and before opening it; process 1, pid 8,
then takes the pidfile, and process 2, pid 9, finds it held by a running process. -/
def clearedDeathRun : List PidSteps.Event :=
  [.spawn 7 firstStart, .acquire 0, .examine 0, .crash 0, .spawn 8 secondStart, .acquire 1,
    .examine 1, .openPidfile 1, .write 1, .spawn 9 firstStart, .acquire 2, .examine 2]

def afterClearedDeath : PidSteps.World :=
  ⟨⟨[⟨7, firstStart, false, false⟩, ⟨8, secondStart, true, true⟩, ⟨9, firstStart, true, false⟩],
    some "8 1700000600.75\n", [(2, .processInTheWay "A process is already running as PID 8")]⟩,
    none⟩

theorem intact_runs_raise_in_the_way_after_death :
    intactRun runningProcess PidSteps.init clearedDeathRun = some afterClearedDeath ∧
      ∀ r ∈ afterClearedDeath.raised,
        r.2 = .processInTheWay s!"Another process is still locking {runningProcess.path}" ∨
          ∃ pid : Int, r.2 = .processInTheWay s!"A process is already running as PID {pid}" :=
  have h : intactRun runningProcess PidSteps.init clearedDeathRun = some afterClearedDeath := rfl
  ⟨h, intact_runs_raise_in_the_way h⟩

end

end TahoeLafs.PidRaises
