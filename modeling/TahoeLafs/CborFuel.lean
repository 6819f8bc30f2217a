import TahoeLafs.Cbor

/-! The bound on the recursion of `loads` is never what stops it: each item takes at least one
byte, so twice the length of the input is more fuel than any decoding of it uses, and `loads`
gives what the decoder gives with any more fuel. The decoder reads an item from the item's own
bytes only: what follows them comes back untouched, and `loads` never looks at it. -/
namespace TahoeLafs.CborFuel
open PyObject Cbor

/-- Every result of `x` leaves at most `n` bytes unread. -/
def LeavesAtMost {α : Type} (n : Nat) (x : Except PyError (α × List UInt8)) : Prop :=
  ∀ v rest, x = .ok (v, rest) → rest.length ≤ n

namespace LeavesAtMost
variable {α β γ : Type} {n m : Nat} {x y : Except PyError (α × List UInt8)}

theorem error (e : PyError) : LeavesAtMost n (.error e : Except PyError (α × List UInt8)) :=
  fun _ _ h => nomatch h

theorem ok {v : α} {rest : List UInt8} (h : rest.length ≤ n) : LeavesAtMost n (.ok (v, rest)) := by
  rintro _ _ ⟨⟩
  exact h

theorem ite {c : Prop} [Decidable c] (hx : LeavesAtMost n x) (hy : LeavesAtMost n y) :
    LeavesAtMost n (if c then x else y) := by
  by_cases hc : c
  · rwa [if_pos hc]
  · rwa [if_neg hc]

theorem bind_pair {x : Except PyError (β × List UInt8)} {f : β × List UInt8 → Except PyError (α × List UInt8)}
    (hx : LeavesAtMost n x) (hf : ∀ a rest, rest.length ≤ n → LeavesAtMost n (f (a, rest))) :
    LeavesAtMost n (x >>= f) := fun v rest h => by
  obtain ⟨⟨a, r⟩, hxa, h⟩ := Except.bind_eq_ok.1 h
  exact hf a r (hx a r hxa) v rest h

theorem bind {x : Except PyError γ} {f : γ → Except PyError (α × List UInt8)}
    (hf : ∀ a, LeavesAtMost n (f a)) : LeavesAtMost n (x >>= f) := fun v rest h => by
  obtain ⟨a, -, h⟩ := Except.bind_eq_ok.1 h
  exact hf a v rest h

theorem mono (hx : LeavesAtMost m x) (h : m ≤ n) : LeavesAtMost n x :=
  fun v rest hr => Nat.le_trans (hx v rest hr) h

end LeavesAtMost

section
variable {info n : Nat} {bs : List UInt8}

theorem readArgument_leaves : LeavesAtMost bs.length (readArgument info bs) := by
  unfold readArgument
  exact .ite (.ok le_rfl) (.ite (.ite (.ok (by simp)) (.error _)) (.ite (.ok le_rfl) (.error _)))

theorem takeBytes_leaves : LeavesAtMost bs.length (takeBytes n bs) :=
  .ite (.ok (by simp)) (.error _)

theorem special_leaves : LeavesAtMost bs.length (special info bs) := by
  unfold special
  repeat' apply LeavesAtMost.ite
  all_goals first
    | exact .ok le_rfl
    | exact .error _
    | skip
  -- the simple value in one more byte, and the floats
  · cases bs with
    | nil => exact .error _
    | cons b bs => exact .ite (.ok (by simp)) (.error _)
  · exact .bind_pair takeBytes_leaves fun _ _ h => .ok h

theorem item_nil {fuel : Nat} {imm : Bool} : item fuel imm [] = .error .decodeError := by
  cases fuel <;> rfl

end

/-- Each item reads at least its first byte, and no decoding reads more than it is given. -/
theorem consumes (fuel : Nat) :
    (∀ imm b bs, LeavesAtMost bs.length (item fuel imm (b :: bs))) ∧
    (∀ imm k bs, LeavesAtMost bs.length (items fuel imm k bs)) ∧
    (∀ imm bs, LeavesAtMost bs.length (itemsToBreak fuel imm bs)) ∧
    (∀ imm k bs, LeavesAtMost bs.length (pairs fuel imm k bs)) ∧
    (∀ imm bs, LeavesAtMost bs.length (pairsToBreak fuel imm bs)) ∧
    (∀ major bs, LeavesAtMost bs.length (chunks fuel major bs)) := by
  induction fuel with
  | zero =>
    refine ⟨fun _ _ _ => .error _, fun _ k _ => ?_, fun _ _ => .error _, fun _ k _ => ?_,
      fun _ _ => .error _, fun _ _ => .error _⟩ <;>
      cases k
    all_goals first
      | exact .ok le_rfl
      | exact .error _
  | succ f ih =>
    obtain ⟨hItem, hItems, hItemsToBreak, hPairs, hPairsToBreak, hChunks⟩ := ih
    have hItem' : ∀ imm bs, LeavesAtMost bs.length (item f imm bs) := fun imm bs => by
      cases bs with
      | nil => rw [item_nil]; exact .error _
      | cons b bs => exact (hItem imm b bs).mono (by simp)
    refine ⟨fun imm b bs => ?_, fun imm k bs => ?_, fun imm bs => ?_, fun imm k bs => ?_,
      fun imm bs => ?_, fun major bs => ?_⟩
    · rw [item]
      refine .ite special_leaves (.bind_pair readArgument_leaves fun arg bs₁ h1 => ?_)
      cases arg with
      | some m =>
        dsimp only
        repeat' apply LeavesAtMost.ite
        · exact .ok h1
        · exact .ok h1
        · exact .bind_pair (takeBytes_leaves.mono h1) fun _ _ h => .ok h
        · exact .bind_pair (takeBytes_leaves.mono h1) fun _ _ h => .bind fun _ => .ok h
        · exact .bind_pair ((hItems _ _ _).mono h1) fun _ _ h => .ok h
        · exact .bind_pair ((hPairs _ _ _).mono h1) fun _ _ h => .ok h
        · exact .bind_pair ((hItem' _ _).mono h1) fun _ _ h => .bind fun _ => .ok h
      | none =>
        dsimp only
        repeat' apply LeavesAtMost.ite
        · exact .bind_pair ((hChunks _ _).mono h1) fun _ _ h => .ok h
        · exact .bind_pair ((hChunks _ _).mono h1) fun _ _ h => .bind fun _ => .ok h
        · exact .bind_pair ((hItemsToBreak _ _).mono h1) fun _ _ h => .ok h
        · exact .bind_pair ((hPairsToBreak _ _).mono h1) fun _ _ h => .ok h
        · exact .error _
    · cases k with
      | zero => exact .ok le_rfl
      | succ k =>
        rw [items_succ]
        exact .bind_pair (hItem' _ _) fun _ _ h => .bind_pair ((hItems _ _ _).mono h) fun _ _ h => .ok h
    · rw [itemsToBreak]
      exact .bind_pair (hItem' _ _) fun _ _ h =>
        .ite (.ok h) (.bind_pair ((hItemsToBreak _ _).mono h) fun _ _ h => .ok h)
    · cases k with
      | zero => exact .ok le_rfl
      | succ k =>
        rw [pairs_succ]
        exact .bind_pair (hItem' _ _) fun _ _ h => .bind_pair ((hItem' _ _).mono h) fun _ _ h =>
          .bind_pair ((hPairs _ _ _).mono h) fun _ _ h => .ok h
    · rw [pairsToBreak]
      exact .bind_pair (hItem' _ _) fun _ _ h => .ite (.ok h) (.bind_pair ((hItem' _ _).mono h)
        fun _ _ h => .bind_pair ((hPairsToBreak _ _).mono h) fun _ _ h => .ok h)
    · cases bs with
      | nil => exact .error _
      | cons b bs =>
        have hl : bs.length ≤ (b :: bs).length := by simp
        rw [chunks]
        refine .ite (.ok hl) (.ite (.bind_pair (readArgument_leaves.mono hl) fun arg bs₁ h1 => ?_)
          (.error _))
        cases arg with
        | some m =>
          exact .bind_pair (takeBytes_leaves.mono h1) fun _ _ h =>
            .bind_pair ((hChunks _ _).mono h) fun _ _ h => .ok h
        | none => exact .error _

theorem item_consumes {fuel : Nat} {imm : Bool} {bs rest : List UInt8} {v : Value}
    (h : item fuel imm bs = .ok (v, rest)) : rest.length < bs.length := by
  cases bs with
  | nil => rw [item_nil] at h; cases h
  | cons b bs => exact Nat.lt_succ_of_le ((consumes fuel).1 imm b bs v rest h)

theorem item_bind_congr {β : Type} {fuel : Nat} {imm : Bool} {bs : List UInt8}
    {g g' : Value × List UInt8 → Except PyError β}
    (h : ∀ v rest, rest.length < bs.length → g (v, rest) = g' (v, rest)) :
    item fuel imm bs >>= g = item fuel imm bs >>= g' :=
  Except.bind_congr_ok fun ⟨v, rest⟩ hv => h v rest (item_consumes hv)

/-- With twice the length of its input and one more, the decoder has all the fuel it can use:
one more changes nothing. -/
theorem fuel_enough (fuel : Nat) :
    (∀ imm bs, 2 * bs.length + 1 ≤ fuel → item (fuel + 1) imm bs = item fuel imm bs) ∧
    (∀ imm n bs, 2 * bs.length + 2 ≤ fuel → items (fuel + 1) imm n bs = items fuel imm n bs) ∧
    (∀ imm bs, 2 * bs.length + 2 ≤ fuel →
      itemsToBreak (fuel + 1) imm bs = itemsToBreak fuel imm bs) ∧
    (∀ imm n bs, 2 * bs.length + 2 ≤ fuel → pairs (fuel + 1) imm n bs = pairs fuel imm n bs) ∧
    (∀ imm bs, 2 * bs.length + 2 ≤ fuel →
      pairsToBreak (fuel + 1) imm bs = pairsToBreak fuel imm bs) ∧
    (∀ major bs, 2 * bs.length + 2 ≤ fuel → chunks (fuel + 1) major bs = chunks fuel major bs) := by
  induction fuel with
  | zero => refine ⟨?_, ?_, ?_, ?_, ?_, ?_⟩ <;> intros <;> omega
  | succ f ih =>
    obtain ⟨hItem, hItems, hItemsToBreak, hPairs, hPairsToBreak, hChunks⟩ := ih
    refine ⟨fun imm bs hb => ?_, fun imm n bs hb => ?_, fun imm bs hb => ?_,
      fun imm n bs hb => ?_, fun imm bs hb => ?_, fun major bs hb => ?_⟩
    · cases bs with
      | nil => rfl
      | cons b bs =>
        have hl : (b :: bs).length = bs.length + 1 := rfl
        rw [item, item]
        congr 1
        refine Except.bind_congr_ok fun ⟨arg, bs₁⟩ hra => ?_
        have h1 := readArgument_leaves _ _ hra
        cases arg with
        | some m =>
          dsimp only
          rw [hItems _ _ _ (by omega), hPairs _ _ _ (by omega), hItem _ _ (by omega)]
        | none =>
          dsimp only
          rw [hChunks _ _ (by omega), hChunks _ _ (by omega), hItemsToBreak _ _ (by omega),
            hPairsToBreak _ _ (by omega)]
    · cases n with
      | zero => rfl
      | succ n =>
        rw [items_succ, items_succ, hItem _ _ (by omega)]
        exact item_bind_congr fun _ _ _ => by simp (disch := omega) only [hItems]
    · rw [itemsToBreak, itemsToBreak, hItem _ _ (by omega)]
      exact item_bind_congr fun _ _ _ => by simp (disch := omega) only [hItemsToBreak]
    · cases n with
      | zero => rfl
      | succ n =>
        rw [pairs_succ, pairs_succ, hItem _ _ (by omega)]
        refine item_bind_congr fun _ _ _ => ?_
        dsimp only
        rw [hItem _ _ (by omega)]
        exact item_bind_congr fun _ _ _ => by simp (disch := omega) only [hPairs]
    · rw [pairsToBreak, pairsToBreak, hItem _ _ (by omega)]
      refine item_bind_congr fun _ _ _ => ?_
      dsimp only
      rw [hItem _ _ (by omega)]
      congr 1
      exact item_bind_congr fun _ _ _ => by simp (disch := omega) only [hPairsToBreak]
    · cases bs with
      | nil => rfl
      | cons b bs =>
        have hl : (b :: bs).length = bs.length + 1 := rfl
        rw [chunks, chunks]
        congr 2
        refine Except.bind_congr_ok fun ⟨arg, bs₁⟩ hra => ?_
        have h1 := readArgument_leaves _ _ hra
        cases arg with
        | none => rfl
        | some m =>
          refine Except.bind_congr_ok fun ⟨d, r⟩ ht => ?_
          have := takeBytes_leaves _ _ ht
          simp (disch := omega) only [hChunks]

theorem item_fuel {fuel : Nat} {imm : Bool} {bs : List UInt8} (h : 2 * bs.length + 1 ≤ fuel) :
    item fuel imm bs = item (2 * bs.length + 1) imm bs := by
  induction fuel, h using Nat.le_induction with
  | base => rfl
  | succ f hf ih => rw [(fuel_enough f).1 imm bs hf, ih]

/-- `loads` gives what the decoder gives with any fuel from twice the length of its input and
one more on: the bound on its recursion is never what stops it. -/
theorem loads_eq_item {fuel : Nat} {bs : List UInt8} (h : 2 * bs.length + 1 ≤ fuel) :
    loads bs = (fun r => r.1) <$> item fuel false bs := by
  rw [loads, item_fuel h]

/-- Whatever `x` reads from some bytes, `y` reads from the same bytes followed by `extra`, and
hands `extra` back after what `x` left. -/
def ReadsOn {α : Type} (extra : List UInt8) (x y : Except PyError (α × List UInt8)) : Prop :=
  ∀ v rest, x = .ok (v, rest) → y = .ok (v, rest ++ extra)

namespace ReadsOn
variable {α β γ : Type} {extra : List UInt8} {x x' y y' : Except PyError (α × List UInt8)}

theorem error (e : PyError) : ReadsOn extra (.error e) y := fun _ _ h => nomatch h

theorem ok {v : α} {rest : List UInt8} : ReadsOn extra (.ok (v, rest)) (.ok (v, rest ++ extra)) := by
  rintro _ _ ⟨⟩
  rfl

theorem ite {c : Prop} [Decidable c] (hx : ReadsOn extra x x') (hy : ReadsOn extra y y') :
    ReadsOn extra (if c then x else y) (if c then x' else y') := by
  by_cases hc : c
  · rwa [if_pos hc, if_pos hc]
  · rwa [if_neg hc, if_neg hc]

theorem bind_pair {x x' : Except PyError (β × List UInt8)}
    {f : β × List UInt8 → Except PyError (α × List UInt8)} (hx : ReadsOn extra x x')
    (hf : ∀ a rest, ReadsOn extra (f (a, rest)) (f (a, rest ++ extra))) :
    ReadsOn extra (x >>= f) (x' >>= f) := fun v rest h => by
  obtain ⟨⟨a, r⟩, hxa, h⟩ := Except.bind_eq_ok.1 h
  rw [hx a r hxa]
  exact hf a r v rest h

theorem bind {x : Except PyError γ} {f f' : γ → Except PyError (α × List UInt8)}
    (hf : ∀ a, ReadsOn extra (f a) (f' a)) : ReadsOn extra (x >>= f) (x >>= f') :=
  fun v rest h => by
    obtain ⟨a, hxa, h⟩ := Except.bind_eq_ok.1 h
    rw [hxa]
    exact hf a v rest h

end ReadsOn

section
variable {extra : List UInt8} {info n : Nat} {bs : List UInt8}

theorem takeBytes_reads_on : ReadsOn extra (takeBytes n bs) (takeBytes n (bs ++ extra)) := by
  unfold takeBytes
  by_cases h : n ≤ bs.length
  · rw [if_pos h, if_pos (by simp only [List.length_append]; omega),
      List.take_append_of_le_length h, List.drop_append_of_le_length h]
    exact .ok
  · rw [if_neg h]
    exact .error _

theorem readArgument_reads_on : ReadsOn extra (readArgument info bs) (readArgument info (bs ++ extra)) := by
  unfold readArgument
  refine .ite .ok (.ite ?_ (.ite .ok (.error _)))
  by_cases h : 2 ^ (info - 24) ≤ bs.length
  · rw [if_pos h, if_pos (by simp only [List.length_append]; omega),
      List.take_append_of_le_length h, List.drop_append_of_le_length h]
    exact .ok
  · rw [if_neg h]
    exact .error _

theorem special_reads_on : ReadsOn extra (special info bs) (special info (bs ++ extra)) := by
  unfold special
  repeat' apply ReadsOn.ite
  all_goals first
    | exact .ok
    | exact .error _
    | skip
  -- the simple value in one more byte, and the floats
  · cases bs with
    | nil => exact .error _
    | cons b bs => exact .ite .ok (.error _)
  · exact .bind_pair takeBytes_reads_on fun _ _ => .ok

end

/-- The decoder reads an item from the item's own bytes: whatever follows them comes back
untouched after it. -/
theorem reads_on (extra : List UInt8) (fuel : Nat) :
    (∀ imm bs, ReadsOn extra (item fuel imm bs) (item fuel imm (bs ++ extra))) ∧
    (∀ imm k bs, ReadsOn extra (items fuel imm k bs) (items fuel imm k (bs ++ extra))) ∧
    (∀ imm bs, ReadsOn extra (itemsToBreak fuel imm bs) (itemsToBreak fuel imm (bs ++ extra))) ∧
    (∀ imm k bs, ReadsOn extra (pairs fuel imm k bs) (pairs fuel imm k (bs ++ extra))) ∧
    (∀ imm bs, ReadsOn extra (pairsToBreak fuel imm bs) (pairsToBreak fuel imm (bs ++ extra))) ∧
    (∀ major bs, ReadsOn extra (chunks fuel major bs) (chunks fuel major (bs ++ extra))) := by
  induction fuel with
  | zero =>
    refine ⟨fun _ _ => .error _, fun _ k _ => ?_, fun _ _ => .error _, fun _ k _ => ?_,
      fun _ _ => .error _, fun _ _ => .error _⟩ <;>
      cases k
    all_goals first
      | exact .ok
      | exact .error _
  | succ f ih =>
    obtain ⟨hItem, hItems, hItemsToBreak, hPairs, hPairsToBreak, hChunks⟩ := ih
    refine ⟨fun imm bs => ?_, fun imm k bs => ?_, fun imm bs => ?_, fun imm k bs => ?_,
      fun imm bs => ?_, fun major bs => ?_⟩
    · cases bs with
      | nil => exact .error _
      | cons b bs =>
        show ReadsOn extra (item (f + 1) imm (b :: bs)) (item (f + 1) imm (b :: (bs ++ extra)))
        rw [item, item]
        refine .ite special_reads_on (.bind_pair readArgument_reads_on fun arg bs₁ => ?_)
        cases arg with
        | some m =>
          dsimp only
          repeat' apply ReadsOn.ite
          · exact .ok
          · exact .ok
          · exact .bind_pair takeBytes_reads_on fun _ _ => .ok
          · exact .bind_pair takeBytes_reads_on fun _ _ => .bind fun _ => .ok
          · exact .bind_pair (hItems _ _ _) fun _ _ => .ok
          · exact .bind_pair (hPairs _ _ _) fun _ _ => .ok
          · exact .bind_pair (hItem _ _) fun _ _ => .bind fun _ => .ok
        | none =>
          dsimp only
          repeat' apply ReadsOn.ite
          · exact .bind_pair (hChunks _ _) fun _ _ => .ok
          · exact .bind_pair (hChunks _ _) fun _ _ => .bind fun _ => .ok
          · exact .bind_pair (hItemsToBreak _ _) fun _ _ => .ok
          · exact .bind_pair (hPairsToBreak _ _) fun _ _ => .ok
          · exact .error _
    · cases k with
      | zero => exact .ok
      | succ k =>
        rw [items_succ, items_succ]
        exact .bind_pair (hItem _ _) fun _ _ => .bind_pair (hItems _ _ _) fun _ _ => .ok
    · rw [itemsToBreak, itemsToBreak]
      exact .bind_pair (hItem _ _) fun _ _ => .ite .ok (.bind_pair (hItemsToBreak _ _) fun _ _ => .ok)
    · cases k with
      | zero => exact .ok
      | succ k =>
        rw [pairs_succ, pairs_succ]
        exact .bind_pair (hItem _ _) fun _ _ => .bind_pair (hItem _ _) fun _ _ =>
          .bind_pair (hPairs _ _ _) fun _ _ => .ok
    · rw [pairsToBreak, pairsToBreak]
      exact .bind_pair (hItem _ _) fun _ _ => .ite .ok (.bind_pair (hItem _ _) fun _ _ =>
        .bind_pair (hPairsToBreak _ _) fun _ _ => .ok)
    · cases bs with
      | nil => exact .error _
      | cons b bs =>
        show ReadsOn extra (chunks (f + 1) major (b :: bs)) (chunks (f + 1) major (b :: (bs ++ extra)))
        rw [chunks, chunks]
        refine .ite .ok (.ite (.bind_pair readArgument_reads_on fun arg bs₁ => ?_) (.error _))
        cases arg with
        | some m => exact .bind_pair takeBytes_reads_on fun _ _ => .bind_pair (hChunks _ _) fun _ _ => .ok
        | none => exact .error _

/-- `loads` reads the first item of its input and nothing after it: bytes put after an input
it decodes do not change the object it gives. -/
theorem loads_append {bs : List UInt8} {v : Value} (h : loads bs = .ok v) (extra : List UInt8) :
    loads (bs ++ extra) = .ok v := by
  have hF : 2 * bs.length + 1 ≤ 2 * (bs ++ extra).length + 1 := by
    simp only [List.length_append]
    omega
  rw [loads_eq_item hF] at h
  cases hi : item (2 * (bs ++ extra).length + 1) false bs with
  | error e => rw [hi] at h; cases h
  | ok r =>
    rw [hi] at h
    cases h
    rw [loads, (reads_on extra _).1 false bs r.1 r.2 hi]
    rfl

end TahoeLafs.CborFuel
