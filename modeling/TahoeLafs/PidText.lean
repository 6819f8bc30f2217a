import Mathlib.Data.List.Basic
import Mathlib.Data.List.DropRight
import Mathlib.Data.Nat.Digits

/-! The text of a pidfile in `allmydata.util.pid`: the line `check_pid_process` writes, and
how it reads a pidfile back with Python's `strip`, `split`, `int` and `float`. -/
namespace TahoeLafs.PidText

/-- Python's `str.isspace` on one character (`Py_UNICODE_ISSPACE`), which `str.strip()` and
`str.split()` use. -/
def isSpace (c : Char) : Bool :=
  let n := c.toNat
  (9 ≤ n && n ≤ 13) || (28 ≤ n && n ≤ 32) || n == 133 || n == 160 || n == 5760 ||
    (8192 ≤ n && n ≤ 8202) || n == 8232 || n == 8233 || n == 8239 || n == 8287 || n == 12288

/-- `str.strip()`. -/
def strip (cs : List Char) : List Char := (cs.dropWhile isSpace).rdropWhile isSpace

/-- `str.split()`: the maximal runs of characters that are not spaces. -/
def split (cs : List Char) : List (List Char) :=
  (cs.splitOnP isSpace).filter fun w => !w.isEmpty

/-- The digits of Python's `digitpart`, `digit (["_"] digit)*`, read from the left: `acc` is
the value so far and `afterDigit` whether the last character was a digit. -/
def digitsFrom : Nat → Bool → List Char → Option Nat
  | acc, afterDigit, [] => if afterDigit then some acc else none
  | acc, afterDigit, c :: cs =>
    if c.isDigit then digitsFrom (10 * acc + (c.toNat - '0'.toNat)) true cs
    else if c = '_' && afterDigit then digitsFrom acc false cs
    else none

def digitPart (cs : List Char) : Option Nat := digitsFrom 0 false cs

/-- `int(s)` in base 10, on a token of `str.split()` (ASCII digits). -/
def pyInt (cs : List Char) : Option Int :=
  match cs with
  | '-' :: r => (digitPart r).map fun n => -(n : Int)
  | '+' :: r => (digitPart r).map fun n => (n : Int)
  | _ => (digitPart cs).map fun n => (n : Int)

/-- The mantissa of a Python float literal: `digitpart`, `digitpart "."`,
`"." digitpart` or `digitpart "." digitpart`. -/
def mantissaOk (cs : List Char) : Bool :=
  match cs.splitOnP (· = '.') with
  | [i] => (digitPart i).isSome
  | [i, f] => (i.isEmpty && (digitPart f).isSome) ||
      ((digitPart i).isSome && (f.isEmpty || (digitPart f).isSome))
  | _ => false

def exponentOk : List Char → Bool
  | '+' :: r | '-' :: r => (digitPart r).isSome
  | r => (digitPart r).isSome

def decimalOk (cs : List Char) : Bool :=
  match cs.splitOnP fun c => c = 'e' || c = 'E' with
  | [m] => mantissaOk m
  | [m, e] => mantissaOk m && exponentOk e
  | _ => false

/-- `float(s)` does not raise `ValueError`, on a token of `str.split()` (ASCII). -/
def floatAccepts (cs : List Char) : Bool :=
  let body := match cs with
    | '+' :: r | '-' :: r => r
    | r => r
  let lower := body.map Char.toLower
  lower == "inf".toList || lower == "infinity".toList || lower == "nan".toList || decimalOk body

/-- A process start time, `psutil.Process.create_time()`, by the digits of Python's `repr` of
it: `whole.frac`, with at least one digit after the point. -/
structure StartTime where
  whole : Nat
  frac : List (Fin 10)
  frac_ne : frac ≠ []
  deriving DecidableEq

/-- `"{}".format(starttime)`. -/
def StartTime.text (t : StartTime) : String :=
  toString t.whole ++ "." ++ String.mk (t.frac.map fun d => Nat.digitChar d.val)

/-- The line `check_pid_process` writes: `"{} {}\n".format(pid, starttime)`. -/
def pidLine (pid : Nat) (t : StartTime) : String :=
  toString pid ++ " " ++ t.text ++ "\n"

/-- What `check_pid_process` reads from the pidfile's text: the pid, or `none` for the
`ValueError` of `content.split()`, `int` or `float` that it turns into `InvalidPidFile`. -/
def parsePidfile (content : String) : Option Int :=
  match split (strip content.toList) with
  | [p, t] => (pyInt p).bind fun pid => if floatAccepts t then some pid else none
  | _ => none

theorem isSpace_of_isDigit {c : Char} (h : c.isDigit = true) : isSpace c = false := by
  simp only [Char.isDigit, Bool.and_eq_true, decide_eq_true_eq] at h
  have h1 : 48 ≤ c.toNat := h.1
  have h2 : c.toNat ≤ 57 := h.2
  simp only [isSpace, Bool.or_eq_false_iff, Bool.and_eq_false_iff, decide_eq_false_iff_not,
    beq_eq_false_iff_ne]
  omega

theorem digitChar_digit : ∀ k < 10,
    (Nat.digitChar k).isDigit = true ∧ (Nat.digitChar k).toNat - '0'.toNat = k := by
  decide

theorem digitsFrom_isSome {cs : List Char} (hd : ∀ c ∈ cs, c.isDigit = true) (hne : cs ≠ [])
    (acc : Nat) (b : Bool) : (digitsFrom acc b cs).isSome := by
  induction cs generalizing acc b with
  | nil => contradiction
  | cons c cs ih =>
    rw [digitsFrom, if_pos (hd c (List.mem_cons_self c cs))]
    cases cs with
    | nil => rfl
    | cons => exact ih (fun x hx => hd x (List.mem_cons_of_mem c hx)) (List.cons_ne_nil _ _) _ _

theorem mem_toDigitsCore {fuel n : Nat} {ds : List Char} {c : Char}
    (h : c ∈ Nat.toDigitsCore 10 fuel n ds) : c ∈ ds ∨ c.isDigit = true := by
  induction fuel generalizing n ds with
  | zero => exact Or.inl h
  | succ fuel ih =>
    have hd := (digitChar_digit (n % 10) (Nat.mod_lt n (by decide))).1
    simp only [Nat.toDigitsCore] at h
    split at h
    · rcases List.mem_cons.1 h with rfl | h
      exacts [Or.inr hd, Or.inl h]
    · rcases ih h with h | h
      · rcases List.mem_cons.1 h with rfl | h
        exacts [Or.inr hd, Or.inl h]
      · exact Or.inr h

theorem digitsFrom_toDigitsCore {fuel n : Nat} (ds : List Char) (h : n < fuel) :
    digitsFrom 0 false (Nat.toDigitsCore 10 fuel n ds) = digitsFrom n true ds := by
  induction fuel generalizing n ds with
  | zero => omega
  | succ fuel ih =>
    obtain ⟨hd, hv⟩ := digitChar_digit (n % 10) (Nat.mod_lt n (by decide))
    simp only [Nat.toDigitsCore]
    split
    · rw [digitsFrom, if_pos hd, hv]
      congr 1
      omega
    · rw [ih _ (by omega), digitsFrom, if_pos hd, hv]
      congr 1
      omega

theorem toDigits_isDigit {n : Nat} {c : Char} (h : c ∈ Nat.toDigits 10 n) : c.isDigit = true :=
  (mem_toDigitsCore h).resolve_left (List.not_mem_nil c)

theorem digitPart_toDigits (n : Nat) : digitPart (Nat.toDigits 10 n) = some n := by
  rw [digitPart, Nat.toDigits, digitsFrom_toDigitsCore [] (Nat.lt_succ_self n)]
  rfl

theorem toDigits_ne_nil (n : Nat) : Nat.toDigits 10 n ≠ [] := fun h => by
  simpa [h, digitPart, digitsFrom] using digitPart_toDigits n

def StartTime.fracChars (t : StartTime) : List Char := t.frac.map fun d => Nat.digitChar d.val

theorem StartTime.fracChars_isDigit (t : StartTime) {c : Char} (h : c ∈ t.fracChars) :
    c.isDigit = true := by
  obtain ⟨d, -, rfl⟩ := List.mem_map.1 h
  exact (digitChar_digit d.val d.isLt).1

theorem StartTime.fracChars_ne_nil (t : StartTime) : t.fracChars ≠ [] := by
  simpa [StartTime.fracChars] using t.frac_ne

theorem toString_data (n : Nat) : (toString n).data = Nat.toDigits 10 n := rfl

theorem StartTime.text_toList (t : StartTime) :
    t.text.toList = Nat.toDigits 10 t.whole ++ '.' :: t.fracChars := by
  simp [StartTime.text, StartTime.fracChars, String.toList, toString_data]

theorem pidLine_toList (pid : Nat) (t : StartTime) :
    (pidLine pid t).toList = (Nat.toDigits 10 pid ++ ' ' :: t.text.toList) ++ ['\n'] := by
  simp [pidLine, String.toList, toString_data]

theorem strip_append_space {xs : List Char} {s : Char} (hs : isSpace s = true)
    (hhead : ∀ c ∈ xs.head?, isSpace c = false) (hlast : ∀ c ∈ xs.getLast?, isSpace c = false) :
    strip (xs ++ [s]) = xs := by
  cases xs with
  | nil => simp [strip, hs, List.rdropWhile]
  | cons x xs =>
    rw [strip, List.cons_append, List.dropWhile_cons_of_neg (by simp [hhead x rfl]),
      ← List.cons_append, List.rdropWhile_concat_pos _ _ _ hs, List.rdropWhile_eq_self_iff]
    intro hne
    simp [hlast _ (List.getLast?_eq_getLast _ hne)]

theorem split_two {a b : List Char} (ha : ∀ c ∈ a, isSpace c = false)
    (hb : ∀ c ∈ b, isSpace c = false) (ha' : a ≠ []) (hb' : b ≠ []) :
    split (a ++ ' ' :: b) = [a, b] := by
  rw [split, List.splitOnP_first _ _ (by simpa using ha) ' ' rfl,
    List.splitOnP_eq_single _ _ (by simpa using hb)]
  simp [ha', hb']

theorem pyInt_of_isDigit {c : Char} {cs : List Char} (h : c.isDigit = true) :
    pyInt (c :: cs) = (digitPart (c :: cs)).map fun n => (n : Int) := by
  have h1 : c ≠ '-' := by rintro rfl; exact absurd h (by decide)
  have h2 : c ≠ '+' := by rintro rfl; exact absurd h (by decide)
  simp [pyInt, h1, h2]

theorem pyInt_toDigits (n : Nat) : pyInt (Nat.toDigits 10 n) = some (n : Int) := by
  obtain ⟨c, cs, hcs⟩ := List.exists_cons_of_ne_nil (toDigits_ne_nil n)
  rw [hcs, pyInt_of_isDigit (toDigits_isDigit (hcs ▸ List.mem_cons_self c cs)), ← hcs,
    digitPart_toDigits]
  rfl

theorem ne_of_isDigit {c d : Char} (hc : c.isDigit = true) (hd : d.isDigit = false) : c ≠ d := by
  rintro rfl
  simp_all

theorem mantissaOk_point {w f : List Char} (hw : (digitPart w).isSome)
    (hf : (digitPart f).isSome) (hwd : ∀ c ∈ w, c.isDigit = true)
    (hfd : ∀ c ∈ f, c.isDigit = true) : mantissaOk (w ++ '.' :: f) = true := by
  have hdot : ∀ {c}, c.isDigit = true → ¬decide (c = '.') = true := fun h => by
    simpa using ne_of_isDigit h (by decide)
  rw [mantissaOk, List.splitOnP_first _ _ (fun c hc => hdot (hwd c hc)) '.' (by decide),
    List.splitOnP_eq_single _ _ (fun c hc => hdot (hfd c hc))]
  simp [hw, hf]

theorem decimalOk_of_mantissaOk {cs : List Char} (h : ∀ c ∈ cs, c.isDigit = true ∨ c = '.')
    (hm : mantissaOk cs = true) : decimalOk cs = true := by
  have hnoE : ∀ c ∈ cs, ¬(c = 'e' || c = 'E') = true := by
    intro c hc
    rcases h c hc with hd | rfl
    · simp [ne_of_isDigit hd (d := 'e') (by decide), ne_of_isDigit hd (d := 'E') (by decide)]
    · decide
  rw [decimalOk, List.splitOnP_eq_single _ _ hnoE]
  exact hm

theorem floatAccepts_of_decimalOk {c : Char} {cs : List Char} (h : c.isDigit = true)
    (hd : decimalOk (c :: cs) = true) : floatAccepts (c :: cs) = true := by
  have h1 : c ≠ '-' := ne_of_isDigit h (by decide)
  have h2 : c ≠ '+' := ne_of_isDigit h (by decide)
  simp [floatAccepts, h1, h2, hd]

theorem floatAccepts_text (t : StartTime) : floatAccepts t.text.toList = true := by
  have hwd : ∀ c ∈ Nat.toDigits 10 t.whole, c.isDigit = true := fun _ => toDigits_isDigit
  have hm := mantissaOk_point (by simp [digitPart_toDigits])
    (digitsFrom_isSome (fun _ => t.fracChars_isDigit) t.fracChars_ne_nil 0 false) hwd
    (fun _ => t.fracChars_isDigit)
  have hd : decimalOk t.text.toList = true := by
    rw [StartTime.text_toList]
    refine decimalOk_of_mantissaOk (fun c hc => ?_) hm
    rcases List.mem_append.1 hc with hc | hc
    · exact Or.inl (hwd c hc)
    · rcases List.mem_cons.1 hc with rfl | hc
      exacts [Or.inr rfl, Or.inl (t.fracChars_isDigit hc)]
  obtain ⟨c, cs, hcs⟩ := List.exists_cons_of_ne_nil (toDigits_ne_nil t.whole)
  rw [StartTime.text_toList, hcs, List.cons_append] at hd ⊢
  exact floatAccepts_of_decimalOk (hwd c (hcs ▸ List.mem_cons_self c cs)) hd

theorem StartTime.text_chars (t : StartTime) {c : Char} (h : c ∈ t.text.toList) :
    c.isDigit = true ∨ c = '.' := by
  rw [StartTime.text_toList] at h
  rcases List.mem_append.1 h with h | h
  · exact Or.inl (toDigits_isDigit h)
  · rcases List.mem_cons.1 h with rfl | h
    exacts [Or.inr rfl, Or.inl (t.fracChars_isDigit h)]

theorem StartTime.getLast?_append_text (t : StartTime) (l : List Char) {c : Char}
    (h : c ∈ (l ++ t.text.toList).getLast?) : c.isDigit = true := by
  obtain ⟨z, hz⟩ := Option.ne_none_iff_exists'.1 (mt List.getLast?_eq_none_iff.1 t.fracChars_ne_nil)
  have hlast : z ∈ (l ++ t.text.toList).getLast? := by
    rw [StartTime.text_toList, List.append_cons, ← List.append_assoc, ← List.append_assoc]
    exact List.mem_getLast?_append_of_mem_getLast? hz
  rw [Option.mem_unique h hlast]
  exact t.fracChars_isDigit (List.mem_of_getLast?_eq_some hz)

/-- The reader of `check_pid_process` parses back the line it writes: the pid comes back,
and neither `int` nor `float` raises `ValueError`. -/
theorem parsePidfile_pidLine (pid : Nat) (t : StartTime) :
    parsePidfile (pidLine pid t) = some (pid : Int) := by
  have hD : ∀ c ∈ Nat.toDigits 10 pid, isSpace c = false :=
    fun _ h => isSpace_of_isDigit (toDigits_isDigit h)
  have hT : ∀ c ∈ t.text.toList, isSpace c = false := fun c h => by
    rcases t.text_chars h with h | rfl
    exacts [isSpace_of_isDigit h, by decide]
  have hstrip : strip (pidLine pid t).toList = Nat.toDigits 10 pid ++ ' ' :: t.text.toList := by
    rw [pidLine_toList]
    refine strip_append_space (by decide) (fun c hc => ?_) (fun c hc => ?_)
    · obtain ⟨d, ds, hds⟩ := List.exists_cons_of_ne_nil (toDigits_ne_nil pid)
      rw [hds, List.cons_append, List.head?_cons, Option.mem_some_iff] at hc
      exact hD c (hc ▸ hds ▸ List.mem_cons_self d ds)
    · rw [List.append_cons] at hc
      exact isSpace_of_isDigit (t.getLast?_append_text _ hc)
  have hTne : t.text.toList ≠ [] := by
    rw [StartTime.text_toList]
    exact List.append_ne_nil_of_right_ne_nil _ (List.cons_ne_nil _ _)
  rw [parsePidfile, hstrip, split_two hD hT (toDigits_ne_nil pid) hTne]
  simp only [pyInt_toDigits, Option.some_bind, floatAccepts_text, if_true]
end TahoeLafs.PidText
