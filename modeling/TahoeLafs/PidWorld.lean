import TahoeLafs.PidCheck

/-! Processes sharing one pidfile. Each call of `check_pid_process` or `cleanup_pidfile` is one
step (its `FileLock` section), a process may die at any step without cleaning up, and a new
process may reuse the pid of a dead one. -/
namespace TahoeLafs.PidWorld
open PidText PidCheck

/-- A process: its pid, its `create_time()`, whether it is alive, and whether it holds the
pidfile: its last `check_pid_process` returned and it has not called `cleanup_pidfile` since. -/
structure Proc where
  pid : Nat
  startTime : StartTime
  alive : Bool
  holds : Bool
  deriving DecidableEq

/-- The machine: every process started so far, the pidfile's text (`none`: no pidfile), and
the exceptions the calls raised, with the index of the calling process. -/
structure World where
  procs : List Proc
  content : Option String
  raised : List (Nat × PidError)
  deriving DecidableEq

def init : World := ⟨[], none, []⟩

/-- `psutil.Process(pid).create_time()` on the process table: a negative pid is a
`ValueError`, and a pid no live process has is `NoSuchProcess`. -/
def World.findProcess (w : World) (pid : Int) : Except PidError StartTime :=
  if pid < 0 then .error (.valueError s!"pid must be a positive integer (got {pid})")
  else match w.procs.find? (fun p => p.alive && p.pid == pid.toNat) with
    | some p => .ok p.startTime
    | none => .error (.noSuchProcess pid)

inductive Event where
  | spawn (pid : Nat) (t : StartTime)
  | crash (i : Nat)
  /-- Process `i` calls `check_pid_process`; `locked` says whether it took the lock in time. -/
  | check (i : Nat) (locked : Bool)
  /-- Process `i`, holding the pidfile, calls `cleanup_pidfile` once. -/
  | cleanup (i : Nat)
  deriving DecidableEq

def raisedBy {α : Type} (i : Nat) : Except PidError α → List (Nat × PidError)
  | .ok _ => []
  | .error e => [(i, e)]

section
variable (pidfile : FilePath)

def step (w : World) : Event → Option World
  | .spawn pid t =>
    if w.procs.any fun p => p.alive && p.pid == pid then none
    else some { w with procs := w.procs ++ [⟨pid, t, true, false⟩] }
  | .crash i =>
    match w.procs[i]? with
    | some p =>
      if p.alive then some { w with procs := w.procs.set i { p with alive := false } } else none
    | none => none
  | .check i locked =>
    match w.procs[i]? with
    | some p =>
      if p.alive then
        match checkPidProcess pidfile w.findProcess p.pid locked w.content with
        | .ok c => some { w with procs := w.procs.set i { p with holds := true },
                                 content := some c.written }
        | .error e => some { w with raised := w.raised ++ [(i, e)] }
      else none
    | none => none
  | .cleanup i =>
    match w.procs[i]? with
    | some p =>
      if p.alive && p.holds then
        some ⟨w.procs.set i { p with holds := false }, none,
          w.raised ++ raisedBy i (cleanupPidfile pidfile w.content)⟩
      else none
    | none => none

def run : World → List Event → Option World
  | w, [] => some w
  | w, ev :: evs => (step pidfile w ev).bind (run · evs)

inductive Reachable : World → Prop
  | init : Reachable init
  | step {w w' : World} (ev : Event) : Reachable w → step pidfile w ev = some w' → Reachable w'

theorem Reachable.run {w w' : World} {evs : List Event} (hw : Reachable pidfile w)
    (h : run pidfile w evs = some w') : Reachable pidfile w' := by
  induction evs generalizing w with
  | nil => cases h; exact hw
  | cons ev evs ih =>
    obtain ⟨w₁, h₁, h⟩ := Option.bind_eq_some.1 h
    exact ih (hw.step ev h₁) h

end

theorem getElem?_set_eq_some {α : Type} {l : List α} {i j : Nat} {a q : α}
    (h : (l.set i a)[j]? = some q) : (i = j ∧ q = a) ∨ (i ≠ j ∧ l[j]? = some q) := by
  rw [List.getElem?_set] at h
  by_cases hij : i = j
  · subst hij
    by_cases hi : i < l.length
    · simp_all
    · simp_all
  · simp_all

theorem getElem?_concat_eq_some {α : Type} {l : List α} {j : Nat} {a q : α}
    (h : (l ++ [a])[j]? = some q) : l[j]? = some q ∨ (j = l.length ∧ q = a) := by
  rcases Nat.lt_or_ge j l.length with hj | hj
  · rw [List.getElem?_append_left hj] at h
    exact Or.inl h
  · rw [List.getElem?_append_right hj] at h
    have : j - l.length = 0 := by
      by_contra hne
      simp [List.getElem?_eq_none (by simp; omega : [a].length ≤ j - l.length)] at h
    simp only [this, List.getElem?_cons_zero, Option.some.injEq] at h
    exact Or.inr ⟨by omega, h.symm⟩

theorem getElem?_concat_of_some {α : Type} {l : List α} {j : Nat} {a q : α}
    (h : l[j]? = some q) : (l ++ [a])[j]? = some q := by
  rw [List.getElem?_append_left (List.getElem?_eq_some_iff.1 h).1, h]

def Holder (w : World) (i : Nat) (p : Proc) : Prop :=
  w.procs[i]? = some p ∧ p.alive = true ∧ p.holds = true

def PidsUnique (procs : List Proc) : Prop :=
  ∀ (i j : Nat) (p q : Proc), procs[i]? = some p → procs[j]? = some q → p.alive = true →
    q.alive = true → p.pid = q.pid → i = j

theorem findProcess_eq {w : World} {pid : Nat} :
    w.findProcess pid = match w.procs.find? (fun p => p.alive && p.pid == pid) with
      | some p => .ok p.startTime
      | none => .error (.noSuchProcess pid) := by
  have : ¬((pid : Int) < 0) := by omega
  simp [World.findProcess, this]

theorem findProcess_alive {w : World} {i : Nat} {p : Proc} (hu : PidsUnique w.procs)
    (hp : w.procs[i]? = some p) (ha : p.alive = true) :
    w.findProcess p.pid = .ok p.startTime := by
  rw [findProcess_eq]
  cases hf : w.procs.find? (fun q => q.alive && q.pid == p.pid) with
  | none =>
    have := List.find?_eq_none.1 hf p (List.mem_iff_getElem?.2 ⟨i, hp⟩)
    simp_all
  | some q =>
    have hq := List.find?_some hf
    obtain ⟨j, hj⟩ := List.mem_iff_getElem?.1 (List.mem_of_find?_eq_some hf)
    simp only [Bool.and_eq_true, beq_iff_eq] at hq
    cases hu i j p q hp hj ha hq.1 hq.2.symm
    simp_all

theorem findProcess_ok {w : World} {pid : Int} {t : StartTime} (h : w.findProcess pid = .ok t) :
    ∃ (j : Nat) (q : Proc), w.procs[j]? = some q ∧ q.alive = true ∧ (q.pid : Int) = pid := by
  by_cases hneg : pid < 0
  · simp [World.findProcess, hneg] at h
  obtain ⟨n, rfl⟩ := Int.eq_ofNat_of_zero_le (Int.not_lt.1 hneg)
  rw [findProcess_eq] at h
  cases hf : w.procs.find? (fun q => q.alive && q.pid == n) with
  | none => simp [hf] at h
  | some q =>
    have hq := List.find?_some hf
    obtain ⟨j, hj⟩ := List.mem_iff_getElem?.1 (List.mem_of_find?_eq_some hf)
    simp only [Bool.and_eq_true, beq_iff_eq] at hq
    exact ⟨j, q, hj, hq.1, by omega⟩

theorem findProcess_error {w : World} {pid : Int} {e : PidError}
    (h : w.findProcess pid = .error e) :
    pid < 0 ∨ (e = .noSuchProcess pid ∧
      ∀ (j : Nat) (q : Proc), w.procs[j]? = some q → q.alive = true → (q.pid : Int) ≠ pid) := by
  by_cases hneg : pid < 0
  · exact Or.inl hneg
  obtain ⟨n, rfl⟩ := Int.eq_ofNat_of_zero_le (Int.not_lt.1 hneg)
  rw [findProcess_eq] at h
  cases hf : w.procs.find? (fun q => q.alive && q.pid == n) with
  | some q => simp [hf] at h
  | none =>
    simp only [hf, Except.error.injEq] at h
    refine Or.inr ⟨h.symm, fun j q hq ha hpid => ?_⟩
    have := List.find?_eq_none.1 hf q (List.mem_iff_getElem?.2 ⟨j, hq⟩)
    simp only [ha, Bool.true_and, beq_iff_eq] at this
    omega

section
variable {pidfile : FilePath} {w w' : World}

theorem step_spawn {pid : Nat} {t : StartTime} (h : step pidfile w (.spawn pid t) = some w') :
    (∀ (j : Nat) (q : Proc), w.procs[j]? = some q → q.alive = true → q.pid ≠ pid) ∧
      w' = { w with procs := w.procs ++ [⟨pid, t, true, false⟩] } := by
  simp only [step] at h
  split at h
  · cases h
  · rename_i hany
    refine ⟨fun j q hq ha hpid => hany ?_, (Option.some.inj h).symm⟩
    exact List.any_eq_true.2 ⟨q, List.mem_iff_getElem?.2 ⟨j, hq⟩, by simp [ha, hpid]⟩

theorem step_crash {i : Nat} (h : step pidfile w (.crash i) = some w') :
    ∃ p, w.procs[i]? = some p ∧ p.alive = true ∧
      w' = { w with procs := w.procs.set i { p with alive := false } } := by
  simp only [step] at h
  split at h
  · rename_i p hp
    split at h
    · exact ⟨p, hp, ‹_›, (Option.some.inj h).symm⟩
    · cases h
  · cases h

theorem step_check {i : Nat} {locked : Bool} (h : step pidfile w (.check i locked) = some w') :
    ∃ p, w.procs[i]? = some p ∧ p.alive = true ∧
      ((∃ c, checkPidProcess pidfile w.findProcess p.pid locked w.content = .ok c ∧
          w' = { w with procs := w.procs.set i { p with holds := true },
                        content := some c.written }) ∨
        ∃ e, checkPidProcess pidfile w.findProcess p.pid locked w.content = .error e ∧
          w' = { w with raised := w.raised ++ [(i, e)] }) := by
  simp only [step] at h
  split at h
  · rename_i p hp
    split at h
    · refine ⟨p, hp, ‹_›, ?_⟩
      split at h
      · exact Or.inl ⟨_, ‹_›, (Option.some.inj h).symm⟩
      · exact Or.inr ⟨_, ‹_›, (Option.some.inj h).symm⟩
    · cases h
  · cases h

theorem step_cleanup {i : Nat} (h : step pidfile w (.cleanup i) = some w') :
    ∃ p, w.procs[i]? = some p ∧ p.alive = true ∧ p.holds = true ∧
      w' = ⟨w.procs.set i { p with holds := false }, none,
        w.raised ++ raisedBy i (cleanupPidfile pidfile w.content)⟩ := by
  simp only [step] at h
  split at h
  · rename_i p hp
    split at h
    · rename_i hph
      simp only [Bool.and_eq_true] at hph
      exact ⟨p, hp, hph.1, hph.2, (Option.some.inj h).symm⟩
    · cases h
  · cases h

/-- What holds in every reachable state. -/
structure Inv (w : World) : Prop where
  pids_unique : PidsUnique w.procs
  holder_line : ∀ i p, Holder w i p → w.content = some (pidLine p.pid p.startTime)
  content_line : ∀ text ∈ w.content, ∃ pid t, text = pidLine pid t
  raised_inTheWay : ∀ r ∈ w.raised, ∃ msg, r.2 = .processInTheWay msg

theorem inv_init : Inv init where
  pids_unique := by simp [PidsUnique, init]
  holder_line := by simp [Holder, init]
  content_line := by simp [init]
  raised_inTheWay := by simp [init]

variable {i j : Nat} {p q : Proc}

theorem holder_unique_of_line (hu : PidsUnique w.procs)
    (hline : ∀ i p, Holder w i p → w.content = some (pidLine p.pid p.startTime))
    (hp : Holder w i p) (hq : Holder w j q) : i = j := by
  have h := congrArg parsePidfile (Option.some.inj ((hline i p hp).symm.trans (hline j q hq)))
  rw [parsePidfile_pidLine, parsePidfile_pidLine, Option.some.injEq, Int.ofNat_inj] at h
  exact hu i j p q hp.1 hq.1 hp.2.1 hq.2.1 h

theorem Inv.holder_unique (hi : Inv w) (hp : Holder w i p) (hq : Holder w j q) : i = j :=
  holder_unique_of_line hi.pids_unique hi.holder_line hp hq

theorem holder_not_stale (hq : Holder w j q) {pid n : Int}
    (hpar : parsePidfile (pidLine q.pid q.startTime) = some pid) :
    w.findProcess pid ≠ .error (.noSuchProcess n) := fun hf => by
  rw [parsePidfile_pidLine, Option.some.injEq] at hpar
  subst hpar
  rcases findProcess_error hf with hneg | ⟨-, hno⟩
  · omega
  · exact hno j q hq.1 hq.2.1 rfl

theorem Inv.check_error {locked : Bool} {e : PidError} (hi : Inv w) (hp : w.procs[i]? = some p)
    (ha : p.alive = true)
    (h : checkPidProcess pidfile w.findProcess p.pid locked w.content = .error e) :
    (∃ msg, e = .processInTheWay msg) ∧
      (locked = false ∨ ∃ (j : Nat) (q : Proc) (t : StartTime), w.procs[j]? = some q ∧
        q.alive = true ∧ w.content = some (pidLine q.pid t)) := by
  rcases checkPidProcess_error pidfile w.findProcess p.pid h with ⟨hl, rfl⟩ | ⟨text, ht, hx⟩ | hg
  · exact ⟨⟨_, rfl⟩, .inl hl⟩
  · obtain ⟨pid, t, rfl⟩ := hi.content_line _ ht
    rcases checkExisting_error pidfile w.findProcess hx with ⟨hpar, -⟩ | ⟨n, hpar, hrun | ⟨hf, hne⟩⟩
    · simp [parsePidfile_pidLine] at hpar
    · rw [parsePidfile_pidLine, Option.some.injEq] at hpar
      subst hpar
      obtain ⟨t', hf, rfl⟩ := hrun
      obtain ⟨j, q, hq, hqa, hqp⟩ := findProcess_ok hf
      exact ⟨⟨_, rfl⟩, .inr ⟨j, q, t, hq, hqa, by rw [ht, Int.ofNat_inj.1 hqp]⟩⟩
    · rw [parsePidfile_pidLine, Option.some.injEq] at hpar
      subst hpar
      rcases findProcess_error hf with hneg | ⟨rfl, -⟩
      · omega
      · exact absurd rfl (hne pid)
  · rw [findProcess_alive hi.pids_unique hp ha] at hg
    cases hg

theorem Inv.check_ok {locked : Bool} {c : Checked} (hi : Inv w) (hp : w.procs[i]? = some p)
    (ha : p.alive = true)
    (h : checkPidProcess pidfile w.findProcess p.pid locked w.content = .ok c) :
    c.written = pidLine p.pid p.startTime ∧ ∀ j q, ¬Holder w j q := by
  obtain ⟨-, hstale, t, ht, hc⟩ := checkPidProcess_ok pidfile w.findProcess p.pid h
  rw [findProcess_alive hi.pids_unique hp ha, Except.ok.injEq] at ht
  refine ⟨by rw [hc, ht], fun j q hq => ?_⟩
  obtain ⟨pid, n, hpar, hf⟩ := hstale _ (hi.holder_line j q hq)
  exact holder_not_stale hq hpar hf

theorem live_of_set {procs : List Proc} {p' : Proc} (hp : procs[i]? = some p)
    (hpid : p'.pid = p.pid) (ha : p'.alive = true → p.alive = true)
    (hq : (procs.set i p')[j]? = some q) (hqa : q.alive = true) :
    ∃ q₀, procs[j]? = some q₀ ∧ q₀.alive = true ∧ q₀.pid = q.pid := by
  rcases getElem?_set_eq_some hq with ⟨rfl, rfl⟩ | ⟨-, hq⟩
  exacts [⟨p, hp, ha hqa, hpid.symm⟩, ⟨q, hq, hqa, rfl⟩]

theorem PidsUnique.set {procs : List Proc} {p' : Proc} (hu : PidsUnique procs)
    (hp : procs[i]? = some p) (hpid : p'.pid = p.pid) (ha : p'.alive = true → p.alive = true) :
    PidsUnique (procs.set i p') := by
  intro j k q r hq hr hqa hra hqr
  obtain ⟨q₀, hq₀, hq₀a, hq₀p⟩ := live_of_set hp hpid ha hq hqa
  obtain ⟨r₀, hr₀, hr₀a, hr₀p⟩ := live_of_set hp hpid ha hr hra
  exact hu j k q₀ r₀ hq₀ hr₀ hq₀a hr₀a (by rw [hq₀p, hr₀p, hqr])

theorem holder_of_set {p' : Proc} (hq : Holder { w with procs := w.procs.set i p' } j q)
    (hj : j ≠ i) : Holder w j q := by
  rcases getElem?_set_eq_some hq.1 with ⟨rfl, -⟩ | ⟨-, h⟩
  exacts [absurd rfl hj, ⟨h, hq.2⟩]

theorem PidsUnique.concat {procs : List Proc} {pid : Nat} {t : StartTime}
    (hu : PidsUnique procs)
    (hs : ∀ (j : Nat) (q : Proc), procs[j]? = some q → q.alive = true → q.pid ≠ pid) :
    PidsUnique (procs ++ [⟨pid, t, true, false⟩]) := by
  intro j k q r hq hr hqa hra hqr
  rcases getElem?_concat_eq_some hq with hq | ⟨rfl, rfl⟩ <;>
    rcases getElem?_concat_eq_some hr with hr | ⟨rfl, rfl⟩
  · exact hu j k q r hq hr hqa hra hqr
  · exact absurd hqr (hs j q hq hqa)
  · exact absurd hqr.symm (hs k r hr hra)
  · rfl

theorem holder_of_concat {pid : Nat} {t : StartTime}
    (hq : Holder { w with procs := w.procs ++ [⟨pid, t, true, false⟩] } j q) : Holder w j q := by
  rcases getElem?_concat_eq_some hq.1 with h | ⟨-, rfl⟩
  · exact ⟨h, hq.2⟩
  · cases hq.2.2

theorem holder_of_crash
    (hq : Holder { w with procs := w.procs.set i { p with alive := false } } j q) :
    Holder w j q := by
  refine holder_of_set hq fun hj => ?_
  subst hj
  rcases getElem?_set_eq_some hq.1 with ⟨-, rfl⟩ | ⟨h, -⟩
  exacts [absurd hq.2.1 (by simp), absurd rfl h]

theorem holder_of_release
    (hq : Holder { w with procs := w.procs.set i { p with holds := false } } j q) :
    j ≠ i ∧ Holder w j q := by
  have hj : j ≠ i := by
    rintro rfl
    rcases getElem?_set_eq_some hq.1 with ⟨-, rfl⟩ | ⟨h, -⟩
    exacts [absurd hq.2.2 (by simp), absurd rfl h]
  exact ⟨hj, holder_of_set hq hj⟩

theorem Inv.spawn {pid : Nat} {t : StartTime} (hi : Inv w)
    (hs : ∀ (j : Nat) (q : Proc), w.procs[j]? = some q → q.alive = true → q.pid ≠ pid) :
    Inv { w with procs := w.procs ++ [⟨pid, t, true, false⟩] } where
  pids_unique := hi.pids_unique.concat hs
  holder_line j q hq := hi.holder_line j q (holder_of_concat hq)
  content_line := hi.content_line
  raised_inTheWay := hi.raised_inTheWay

theorem Inv.crash (hi : Inv w) (hp : w.procs[i]? = some p) :
    Inv { w with procs := w.procs.set i { p with alive := false } } where
  pids_unique := hi.pids_unique.set hp rfl (by simp)
  holder_line j q hq := hi.holder_line j q (holder_of_crash hq)
  content_line := hi.content_line
  raised_inTheWay := hi.raised_inTheWay

theorem Inv.check_returns {locked : Bool} {c : Checked} (hi : Inv w) (hp : w.procs[i]? = some p)
    (ha : p.alive = true)
    (h : checkPidProcess pidfile w.findProcess p.pid locked w.content = .ok c) :
    Inv { w with procs := w.procs.set i { p with holds := true }, content := some c.written } := by
  obtain ⟨hc, hnone⟩ := hi.check_ok hp ha h
  refine ⟨hi.pids_unique.set hp rfl id, fun j q hq => ?_, ?_, hi.raised_inTheWay⟩
  · rcases getElem?_set_eq_some hq.1 with ⟨-, rfl⟩ | ⟨hj, h⟩
    · exact congrArg some hc
    · exact absurd ⟨h, hq.2⟩ (hnone j q)
  · rintro text ⟨⟩
    exact ⟨_, _, hc⟩

theorem Inv.check_raises {locked : Bool} {e : PidError} (hi : Inv w) (hp : w.procs[i]? = some p)
    (ha : p.alive = true)
    (h : checkPidProcess pidfile w.findProcess p.pid locked w.content = .error e) :
    Inv { w with raised := w.raised ++ [(i, e)] } where
  pids_unique := hi.pids_unique
  holder_line := hi.holder_line
  content_line := hi.content_line
  raised_inTheWay r hr := by
    rcases List.mem_append.1 hr with hr | hr
    · exact hi.raised_inTheWay r hr
    · rw [List.mem_singleton.1 hr]
      exact (hi.check_error hp ha h).1

theorem Inv.cleanup (hi : Inv w) (hp : w.procs[i]? = some p) (ha : p.alive = true)
    (hh : p.holds = true) :
    Inv ⟨w.procs.set i { p with holds := false }, none,
      w.raised ++ raisedBy i (cleanupPidfile pidfile w.content)⟩ where
  pids_unique := hi.pids_unique.set hp rfl id
  holder_line j q hq :=
    have ⟨hj, hq⟩ := holder_of_release hq
    absurd (hi.holder_unique hq ⟨hp, ha, hh⟩) hj
  content_line := by simp
  raised_inTheWay := by
    rw [hi.holder_line i p ⟨hp, ha, hh⟩]
    simpa [cleanupPidfile, raisedBy] using hi.raised_inTheWay

theorem Inv.step {ev : Event} (hi : Inv w) (h : step pidfile w ev = some w') : Inv w' := by
  cases ev with
  | spawn pid t =>
    obtain ⟨hs, rfl⟩ := step_spawn h
    exact hi.spawn hs
  | crash i =>
    obtain ⟨p, hp, -, rfl⟩ := step_crash h
    exact hi.crash hp
  | check i locked =>
    obtain ⟨p, hp, ha, ⟨c, hc, rfl⟩ | ⟨e, he, rfl⟩⟩ := step_check h
    exacts [hi.check_returns hp ha hc, hi.check_raises hp ha he]
  | cleanup i =>
    obtain ⟨p, hp, ha, hh, rfl⟩ := step_cleanup h
    exact hi.cleanup hp ha hh

theorem Reachable.inv (h : Reachable pidfile w) : Inv w := by
  induction h with
  | init => exact inv_init
  | step _ _ hs ih => exact ih.step hs

theorem step_check_error {locked : Bool} {e : PidError} (hp : w.procs[i]? = some p)
    (ha : p.alive = true)
    (h : checkPidProcess pidfile w.findProcess p.pid locked w.content = .error e) :
    step pidfile w (.check i locked) = some { w with raised := w.raised ++ [(i, e)] } := by
  simp [step, hp, ha, h]

/-- The pidfile admits one live process: at most one live process holds it, and while one
does the pidfile is its line, which reads back as its pid, and the `check_pid_process` of every
other live process raises `ProcessInTheWay` and leaves the processes and the pidfile as they
were. -/
structure SingleHolder (pidfile : FilePath) (w : World) : Prop where
  unique : ∀ i j p q, Holder w i p → Holder w j q → i = j
  holder_line : ∀ i p, Holder w i p → w.content = some (pidLine p.pid p.startTime)
  line_reads_back : ∀ i p, Holder w i p →
    parsePidfile (pidLine p.pid p.startTime) = some (p.pid : Int)
  others_refused : ∀ i p, Holder w i p → ∀ j q locked, j ≠ i → w.procs[j]? = some q →
    q.alive = true →
      (∃ msg, checkPidProcess pidfile w.findProcess q.pid locked w.content =
          .error (.processInTheWay msg)) ∧
        ∃ w', step pidfile w (.check j locked) = some w' ∧ w'.procs = w.procs ∧
          w'.content = w.content

theorem pidfile_single_holder (hw : Reachable pidfile w) : SingleHolder pidfile w := by
  have hi := hw.inv
  refine ⟨fun i j p q => hi.holder_unique, hi.holder_line, fun _ _ _ => parsePidfile_pidLine _ _,
    fun i p hp j q locked hji hq hqa => ?_⟩
  cases hc : checkPidProcess pidfile w.findProcess q.pid locked w.content with
  | ok c => exact absurd hp ((hi.check_ok hq hqa hc).2 i p)
  | error e =>
    obtain ⟨⟨msg, rfl⟩, -⟩ := hi.check_error hq hqa hc
    exact ⟨⟨msg, rfl⟩, _, step_check_error hq hqa hc, rfl, rfl⟩

/-- In a reachable state the `check_pid_process` of a live process raises exactly when its lock
timed out or the pidfile holds the line of a live process, be it the caller itself, whatever
start time the line carries; what it raises is `ProcessInTheWay`. -/
theorem check_raises_iff {locked : Bool} (hw : Reachable pidfile w) (hp : w.procs[i]? = some p)
    (ha : p.alive = true) :
    ((∃ e, checkPidProcess pidfile w.findProcess p.pid locked w.content = .error e) ↔
      (locked = false ∨ ∃ (j : Nat) (q : Proc) (t : StartTime), w.procs[j]? = some q ∧
        q.alive = true ∧ w.content = some (pidLine q.pid t))) ∧
    ∀ e, checkPidProcess pidfile w.findProcess p.pid locked w.content = .error e →
      ∃ msg, e = .processInTheWay msg := by
  refine ⟨⟨fun ⟨e, he⟩ => (hw.inv.check_error hp ha he).2, ?_⟩,
    fun e he => (hw.inv.check_error hp ha he).1⟩
  rintro (rfl | ⟨j, q, t, hq, hqa, hc⟩)
  · exact ⟨_, checkPidProcess_timeout pidfile _ _ _⟩
  · cases locked
    · exact ⟨_, checkPidProcess_timeout pidfile _ _ _⟩
    · rw [hc]
      exact ⟨_, checkPidProcess_running pidfile _ _ (parsePidfile_pidLine q.pid t)
        (findProcess_alive hw.inv.pids_unique hq hqa)⟩

end

def runningProcess : FilePath := ⟨"/node", "running.process"⟩

def firstStart : StartTime := ⟨1700000000, [2, 5], by decide⟩

def secondStart : StartTime := ⟨1700000600, [7, 5], by decide⟩

def afterFirstCheck : World := ⟨[⟨7, firstStart, true, true⟩], some "7 1700000000.25\n", []⟩

theorem pidfile_single_holder_after_check :
    Reachable runningProcess afterFirstCheck ∧ SingleHolder runningProcess afterFirstCheck :=
  have h := Reachable.init.run runningProcess
    (show run _ init [.spawn 7 firstStart, .check 0 true] = some afterFirstCheck from rfl)
  ⟨h, pidfile_single_holder h⟩

/-- A stale pidfile that carries the caller's own pid: process 0 (pid 7) takes the pidfile and
dies without cleaning up, then process 1 starts with pid 7 again, as in a restarted container. -/
def reusedPidRun : List Event :=
  [.spawn 7 firstStart, .check 0 true, .crash 0, .spawn 7 secondStart]

def afterReuse : World :=
  ⟨[⟨7, firstStart, false, true⟩, ⟨7, secondStart, true, false⟩], some "7 1700000000.25\n", []⟩

theorem reachable_afterReuse : Reachable runningProcess afterReuse :=
  Reachable.init.run _ (show run _ init reusedPidRun = some afterReuse from rfl)

/-- After that run the only live process is the caller, pid 7, and its `check_pid_process`
still raises `ProcessInTheWay`: the live process it finds at the stale pid is itself. -/
theorem check_refuses_reused_own_pid :
    Reachable runningProcess afterReuse ∧
      afterReuse.procs.map (fun p => (p.pid, p.alive)) = [(7, false), (7, true)] ∧
      checkPidProcess runningProcess afterReuse.findProcess 7 true afterReuse.content =
        .error (.processInTheWay "A process is already running as PID 7") :=
  ⟨reachable_afterReuse, rfl, rfl⟩

theorem check_raises_iff_afterReuse :
    Reachable runningProcess afterReuse ∧
      afterReuse.procs[1]? = some ⟨7, secondStart, true, false⟩ ∧
      ((∃ e, checkPidProcess runningProcess afterReuse.findProcess 7 true afterReuse.content =
          .error e) ↔
        (true = false ∨ ∃ (j : Nat) (q : Proc) (t : StartTime), afterReuse.procs[j]? = some q ∧
          q.alive = true ∧ afterReuse.content = some (pidLine q.pid t))) ∧
      ∀ e, checkPidProcess runningProcess afterReuse.findProcess 7 true afterReuse.content =
          .error e → ∃ msg, e = .processInTheWay msg :=
  ⟨reachable_afterReuse, rfl,
    check_raises_iff (i := 1) (p := ⟨7, secondStart, true, false⟩) reachable_afterReuse rfl rfl⟩

end TahoeLafs.PidWorld
