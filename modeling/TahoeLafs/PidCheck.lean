import TahoeLafs.Basic
import TahoeLafs.PidText

/-! `check_pid_process` and `cleanup_pidfile` of `allmydata.util.pid`, as functions of the
pidfile's text and of the process lookup they are given. The `FileLock` critical section of
each call is one evaluation. -/
namespace TahoeLafs.PidCheck
open PidText

/-- A twisted `FilePath`: its directory and its base name. -/
structure FilePath where
  dir : String
  basename : String
  deriving DecidableEq

def FilePath.path (p : FilePath) : String := p.dir ++ "/" ++ p.basename

def FilePath.sibling (p : FilePath) (name : String) : FilePath := ⟨p.dir, name⟩

/-- `_pidfile_to_lockpath`: the sibling `<basename>.lock` of the pidfile. -/
def pidfileToLockpath (pidfile : FilePath) : FilePath :=
  pidfile.sibling (pidfile.basename ++ ".lock")

theorem pidfileToLockpath_ne (p : FilePath) : pidfileToLockpath p ≠ p := fun h => by
  have hlen := congrArg (fun q : FilePath => q.basename.length) h
  have : ".lock".length = 5 := rfl
  simp only [pidfileToLockpath, FilePath.sibling, String.length_append] at hlen
  omega

theorem pidfileToLockpath_injective : Function.Injective pidfileToLockpath := by
  rintro ⟨d, b⟩ ⟨d', b'⟩ h
  simp only [pidfileToLockpath, FilePath.sibling, FilePath.mk.injEq] at h
  obtain ⟨rfl, h⟩ := h
  have := congrArg String.data h
  simp only [String.data_append, List.append_cancel_right_eq] at this
  rw [String.ext_iff.2 this]

/-- The exceptions that leave `check_pid_process` and `cleanup_pidfile`. -/
inductive PidError where
  | processInTheWay (msg : String)
  | invalidPidFile (msg : String)
  | cannotRemovePidFile (msg : String)
  /-- `psutil.NoSuchProcess` for a pid no process has. -/
  | noSuchProcess (pid : Int)
  /-- The `ValueError` of `psutil.Process` for a negative pid. -/
  | valueError (msg : String)
  deriving DecidableEq

/-- What a call of `check_pid_process` that returns has done: the line it printed about a
stale pidfile, if there was one, and the line it wrote into the pidfile. -/
structure Checked where
  printed : Option String
  written : String
  deriving DecidableEq

/-- The body of `if pidfile.exists():` in `check_pid_process`, on the pidfile's text: the line
it prints about a stale pidfile before removing it, or the exception it raises. -/
def checkExisting (pidfile : FilePath) (findProcess : Int → Except PidError StartTime)
    (text : String) : Except PidError String :=
  match parsePidfile text with
  | none => throw (.invalidPidFile s!"found invalid PID file in FilePath('{pidfile.path}')")
  | some pid =>
    match findProcess pid with
    | .ok _ => throw (.processInTheWay s!"A process is already running as PID {pid}")
    | .error (.noSuchProcess _) => pure s!"'{pidfile.path}' refers to {pid} that isn't running"
    | .error e => throw e

/-- `check_pid_process(pidfile, find_process)`. `locked` says whether the `FileLock` was taken
within its timeout, `findProcess pid` is `find_process(pid).create_time()`, `getpid` is
`os.getpid()` and `content` the pidfile's text (`none`: there is no pidfile). Every
exception leaves the pidfile as it was. -/
def checkPidProcess (pidfile : FilePath) (findProcess : Int → Except PidError StartTime)
    (getpid : Nat) (locked : Bool) (content : Option String) : Except PidError Checked := do
  if !locked then
    throw (.processInTheWay s!"Another process is still locking {pidfile.path}")
  let printed ← match content with
    | none => pure none
    | some text => some <$> checkExisting pidfile findProcess text
  let starttime ← findProcess getpid
  return ⟨printed, pidLine getpid starttime⟩

/-- `cleanup_pidfile(pidfile)`: under the lock, remove the pidfile, whatever process it names.
Afterwards there is no pidfile, whether this raised or not. -/
def cleanupPidfile (pidfile : FilePath) (content : Option String) : Except PidError Unit :=
  match content with
  | some _ => pure ()
  | none => throw (.cannotRemovePidFile
      s!"Couldn't remove '{pidfile.path}': [Errno 2] No such file or directory: '{pidfile.path}'.")

section
variable (pidfile : FilePath) (findProcess : Int → Except PidError StartTime) (getpid : Nat)

theorem checkPidProcess_timeout (content : Option String) :
    checkPidProcess pidfile findProcess getpid false content =
      .error (.processInTheWay s!"Another process is still locking {pidfile.path}") := rfl

theorem checkPidProcess_running {text : String} {pid : Int} {t : StartTime}
    (hp : parsePidfile text = some pid) (hf : findProcess pid = .ok t) :
    checkPidProcess pidfile findProcess getpid true (some text) =
      .error (.processInTheWay s!"A process is already running as PID {pid}") := by
  simp [checkPidProcess, checkExisting, hp, hf]

theorem checkExisting_ok {text m : String} (h : checkExisting pidfile findProcess text = .ok m) :
    ∃ pid n, parsePidfile text = some pid ∧ findProcess pid = .error (.noSuchProcess n) := by
  unfold checkExisting at h
  split at h
  · cases h
  · rename_i pid _
    split at h
    · cases h
    · exact ⟨pid, _, ‹_›, ‹_›⟩
    · cases h

theorem checkPidProcess_ok {locked : Bool} {content : Option String} {c : Checked}
    (h : checkPidProcess pidfile findProcess getpid locked content = .ok c) :
    locked = true ∧
      (∀ text ∈ content, ∃ pid n, parsePidfile text = some pid ∧
        findProcess pid = .error (.noSuchProcess n)) ∧
      ∃ t, findProcess getpid = .ok t ∧ c.written = pidLine getpid t := by
  cases locked
  · simp [checkPidProcess] at h
  cases content with
  | none =>
    simp [checkPidProcess, Except.bind_eq_ok] at h
    obtain ⟨t, ht, rfl⟩ := h
    exact ⟨rfl, by simp, t, ht, rfl⟩
  | some text =>
    simp [checkPidProcess, Except.bind_eq_ok] at h
    obtain ⟨m, hm, t, ht, rfl⟩ := h
    exact ⟨rfl, by simpa using checkExisting_ok pidfile findProcess hm, t, ht, rfl⟩


theorem checkExisting_error {text : String} {e : PidError}
    (h : checkExisting pidfile findProcess text = .error e) :
    (parsePidfile text = none ∧
        e = .invalidPidFile s!"found invalid PID file in FilePath('{pidfile.path}')") ∨
      ∃ pid, parsePidfile text = some pid ∧
        ((∃ t, findProcess pid = .ok t ∧
            e = .processInTheWay s!"A process is already running as PID {pid}") ∨
          (findProcess pid = .error e ∧ ∀ n, e ≠ .noSuchProcess n)) := by
  unfold checkExisting at h
  split at h
  · exact Or.inl ⟨‹_›, by simpa [eq_comm] using h⟩
  · rename_i pid hp
    refine Or.inr ⟨pid, hp, ?_⟩
    split at h
    · exact Or.inl ⟨_, ‹_›, by simpa [eq_comm] using h⟩
    · cases h
    · rename_i e' hne hf
      simp only [Except.throw_eq, Except.error.injEq] at h
      subst h
      exact Or.inr ⟨hf, fun n hn => hne n hn⟩

theorem checkPidProcess_error {locked : Bool} {content : Option String} {e : PidError}
    (h : checkPidProcess pidfile findProcess getpid locked content = .error e) :
    (locked = false ∧ e = .processInTheWay s!"Another process is still locking {pidfile.path}") ∨
      (∃ text, content = some text ∧ checkExisting pidfile findProcess text = .error e) ∨
      findProcess getpid = .error e := by
  cases locked
  · exact Or.inl ⟨rfl, by simpa [eq_comm, checkPidProcess] using h⟩
  cases content with
  | none =>
    simp [checkPidProcess, Except.bind_eq_error] at h
    exact Or.inr (Or.inr h)
  | some text =>
    simp [checkPidProcess, Except.bind_eq_error] at h
    rcases h with h | ⟨-, h⟩
    exacts [Or.inr (Or.inl ⟨text, rfl, h⟩), Or.inr (Or.inr h)]

end

end TahoeLafs.PidCheck
