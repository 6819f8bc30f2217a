import Mathlib.Data.List.Forall2
import TahoeLafs.PidWorld

/-! What the pidfile is for: a lock that one process at a time holds. The world of processes and
pidfile refines this lock: a process acquires it only when its own `check_pid_process`
returns, and it is released only by its holder's `cleanup_pidfile` or death. -/
namespace TahoeLafs.PidLock
open PidCheck PidWorld

inductive LockEvent where
  | acquire (i : Nat)
  | release (i : Nat)
  deriving DecidableEq

/-- The lock: free, or held by one process. Only a free lock is acquired, and only its holder
releases it. -/
def lockStep : Option Nat → LockEvent → Option (Option Nat)
  | none, .acquire i => some (some i)
  | some j, .release i => if i = j then some none else none
  | _, _ => none

def lockRun : Option Nat → List LockEvent → Option (Option Nat)
  | h, [] => some h
  | h, e :: es => (lockStep h e).bind (lockRun · es)

/-- The lock events a step of the world may be: a call of `check_pid_process` acquires, a crash
or a call of `cleanup_pidfile` releases, each for the process that takes the step. -/
def Implements : Event → LockEvent → Prop
  | .check i _, .acquire j => i = j
  | .crash i, .release j => i = j
  | .cleanup i, .release j => i = j
  | _, _ => False

/-- The process that holds the pidfile: the live one whose `check_pid_process` returned and
that has not cleaned up. -/
def holder (w : World) : Option Nat := w.procs.findIdx? fun p => p.alive && p.holds

def OneHolder (w : World) : Prop := ∀ i j p q, Holder w i p → Holder w j q → i = j

theorem oneHolder_of_inv {w : World} (hi : Inv w) : OneHolder w := fun _ _ _ _ => hi.holder_unique

section
variable {w w' : World} {i j : Nat} {p q : Proc}

theorem holder_eq_none : holder w = none ↔ ∀ i p, ¬Holder w i p := by
  rw [holder, List.findIdx?_eq_none_iff]
  constructor
  · rintro h i p ⟨hp, ha, hh⟩
    simpa [ha, hh] using h p (List.mem_iff_getElem?.2 ⟨i, hp⟩)
  · intro h p hp
    obtain ⟨i, hi⟩ := List.mem_iff_getElem?.1 hp
    by_cases hc : p.alive = true ∧ p.holds = true
    · exact absurd ⟨hi, hc.1, hc.2⟩ (h i p)
    · simpa [Bool.and_eq_true] using hc

theorem holder_of_eq_some (h : holder w = some i) : ∃ p, Holder w i p := by
  have := List.findIdx?_of_eq_some h
  cases hp : w.procs[i]? with
  | none => simp [hp] at this
  | some p =>
    simp only [hp, Bool.and_eq_true] at this
    exact ⟨p, hp, this⟩

theorem holder_eq_some (hu : OneHolder w) : holder w = some i ↔ ∃ p, Holder w i p := by
  refine ⟨holder_of_eq_some, fun ⟨p, hp⟩ => ?_⟩
  cases hh : holder w with
  | none => exact absurd hp (holder_eq_none.1 hh i p)
  | some k =>
    obtain ⟨q, hq⟩ := holder_of_eq_some hh
    rw [hu _ _ _ _ hq hp]

theorem getElem?_set_of_some {l : List Proc} {p' : Proc} (hp : l[i]? = some p) :
    (l.set i p')[i]? = some p' := by
  rw [List.getElem?_set_self', hp]
  rfl

theorem holder_set_ne {p' : Proc} (hprocs : w'.procs = w.procs.set i p') (hj : j ≠ i) :
    Holder w' j q ↔ Holder w j q := by
  simp only [Holder, hprocs, List.getElem?_set_ne (Ne.symm hj)]

theorem not_holder_set {p' : Proc} (hprocs : w'.procs = w.procs.set i p')
    (hp : w.procs[i]? = some p) (hfree : p'.alive = false ∨ p'.holds = false) :
    ¬Holder w' i q := by
  rintro ⟨hq, hqa, hqh⟩
  rw [hprocs, getElem?_set_of_some hp, Option.some.injEq] at hq
  subst hq
  rcases hfree with h | h <;> simp_all

theorem holder_after_drop {p' : Proc} (hu : OneHolder w) (hu' : OneHolder w')
    (hprocs : w'.procs = w.procs.set i p') (hdrop : ∀ q, ¬Holder w' i q) :
    holder w' = if holder w = some i then none else holder w := by
  split_ifs with hw
  · refine holder_eq_none.2 fun j q hq => ?_
    have hj : j ≠ i := fun hji => hdrop q (hji ▸ hq)
    obtain ⟨r, hr⟩ := (holder_eq_some hu).1 hw
    exact hj (hu _ _ _ _ ((holder_set_ne hprocs hj).1 hq) hr)
  · cases hh : holder w with
    | none =>
      exact holder_eq_none.2 fun j q hq => holder_eq_none.1 hh j q <|
        (holder_set_ne hprocs fun hji => hdrop q (hji ▸ hq)).1 hq
    | some k =>
      have hk : k ≠ i := fun hki => hw (hki ▸ hh)
      obtain ⟨r, hr⟩ := (holder_eq_some hu).1 hh
      exact (holder_eq_some hu').2 ⟨r, (holder_set_ne hprocs hk).2 hr⟩

end

section
variable {W E : Type} {view : W → World} {next : W → E → Option W}
  {implements : E → LockEvent → Prop}

/-- A run of a machine `next` whose states `view` shows as worlds: every state it passes
through has at most one holder, and every step keeps the holder or is one step of the lock that
its event implements. -/
inductive LockTrace (view : W → World) (next : W → E → Option W)
    (implements : E → LockEvent → Prop) : W → List E → W → Prop
  | done {w : W} : OneHolder (view w) → LockTrace view next implements w [] w
  | cons {w w₁ w' : W} {ev : E} {evs : List E} : OneHolder (view w) → next w ev = some w₁ →
      (holder (view w₁) = holder (view w) ∨
        ∃ e, implements ev e ∧ lockStep (holder (view w)) e = some (holder (view w₁))) →
      LockTrace view next implements w₁ evs w' → LockTrace view next implements w (ev :: evs) w'

/-- The lock events of a trace, in order, are a run of the lock from its first holder to its
last. -/
theorem LockTrace.lockRun {w w' : W} {evs : List E} (h : LockTrace view next implements w evs w') :
    ∃ es : List (Option LockEvent), List.Forall₂ (fun ev oe => ∀ e ∈ oe, implements ev e) evs es ∧
      PidLock.lockRun (holder (view w)) (es.filterMap id) = some (holder (view w')) := by
  induction h with
  | done => exact ⟨[], .nil, rfl⟩
  | cons _ _ hstep _ ih =>
    obtain ⟨es, hes, hrun⟩ := ih
    rcases hstep with hsame | ⟨e, he, hs⟩
    · exact ⟨none :: es, .cons (by simp) hes, by rw [hsame] at hrun; simpa using hrun⟩
    · exact ⟨some e :: es, .cons (by simpa using he) hes, by simp [PidLock.lockRun, hs, hrun]⟩

end

section
variable {pidfile : FilePath} {w w' : World}

/-- Every step of the world is a step of the lock by the process that takes it, or leaves the
holder as it was. -/
theorem step_refines_lock {ev : Event} (hw : Reachable pidfile w)
    (h : step pidfile w ev = some w') :
    holder w' = holder w ∨ ∃ e, Implements ev e ∧ lockStep (holder w) e = some (holder w') := by
  have hi := hw.inv
  have hu := oneHolder_of_inv hi
  have hu' := oneHolder_of_inv (hw.step ev h).inv
  cases ev with
  | spawn pid t =>
    obtain ⟨-, rfl⟩ := step_spawn h
    exact .inl (by simp [holder])
  | crash i =>
    obtain ⟨p, hp, -, rfl⟩ := step_crash h
    rw [holder_after_drop hu hu' rfl fun _ => not_holder_set rfl hp (.inl rfl)]
    split_ifs with hh
    · exact .inr ⟨.release i, rfl, by simp [lockStep, hh]⟩
    · exact .inl rfl
  | check i locked =>
    obtain ⟨p, hp, ha, ⟨c, hc, rfl⟩ | ⟨e, -, rfl⟩⟩ := step_check h
    · have hnone : holder w = none := holder_eq_none.2 (hi.check_ok hp ha hc).2
      have hnew := (holder_eq_some (i := i) hu').2 ⟨_, getElem?_set_of_some hp, ha, rfl⟩
      exact .inr ⟨.acquire i, rfl, by rw [hnone, hnew]; rfl⟩
    · exact .inl rfl
  | cleanup i =>
    obtain ⟨p, hp, ha, hh, rfl⟩ := step_cleanup h
    have hw : holder w = some i := (holder_eq_some hu).2 ⟨p, hp, ha, hh⟩
    rw [holder_after_drop hu hu' rfl fun _ => not_holder_set rfl hp (.inr rfl), if_pos hw, hw]
    exact .inr ⟨.release i, rfl, by simp [lockStep]⟩

theorem lockTrace_of_run {evs : List Event} (hw : Reachable pidfile w)
    (h : run pidfile w evs = some w') : LockTrace id (step pidfile) Implements w evs w' := by
  induction evs generalizing w with
  | nil =>
    cases h
    exact .done (oneHolder_of_inv hw.inv)
  | cons ev evs ih =>
    obtain ⟨w₁, h₁, h⟩ := Option.bind_eq_some.1 h
    exact .cons (oneHolder_of_inv hw.inv) h₁ (step_refines_lock hw h₁) (ih (hw.step ev h₁) h)

/-- Every run of the world from its start is a run of the lock from free: every state it passes
through has at most one holder, every step keeps the holder or is one step of the lock by the
process that takes it, and the lock events, in order, take the lock from free to the last
holder. -/
theorem run_refines_lock {evs : List Event} (h : run pidfile init evs = some w) :
    LockTrace id (step pidfile) Implements init evs w ∧
      ∃ es : List (Option LockEvent), List.Forall₂ (fun ev oe => ∀ e ∈ oe, Implements ev e) evs es ∧
        lockRun none (es.filterMap id) = some (holder w) :=
  have ht := lockTrace_of_run .init h
  ⟨ht, ht.lockRun⟩

end

theorem run_refines_lock_reused_pid :
    run runningProcess init reusedPidRun = some afterReuse ∧
      LockTrace id (step runningProcess) Implements init reusedPidRun afterReuse ∧
      ∃ es : List (Option LockEvent),
        List.Forall₂ (fun ev oe => ∀ e ∈ oe, Implements ev e) reusedPidRun es ∧
          lockRun none (es.filterMap id) = some (holder afterReuse) :=
  have h : run runningProcess init reusedPidRun = some afterReuse := rfl
  ⟨h, run_refines_lock h⟩

end TahoeLafs.PidLock
