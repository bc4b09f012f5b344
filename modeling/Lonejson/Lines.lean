import Mathlib

/-!
# Lines of a stream

A stream of symbols is cut into lines at every `cr`, `lf` and `cr lf`. A machine that reads one
symbol at a time, and that waits behind a `cr` for the `lf` that may follow, cuts the same lines.
-/

namespace Lines

variable {α : Type} [DecidableEq α] {cr lf : α}

/-- The lines of a stream whose first line has begun with `line`. The last line may be without
an end, unless it is empty. -/
def cut (cr lf : α) : List α → List α → List (List α)
  | line, [] => if line = [] then [] else [line]
  | line, [b] => if b = cr ∨ b = lf then [line] else [line ++ [b]]
  | line, b :: c :: s =>
    if b = cr ∧ c = lf then line :: cut cr lf [] s
    else if b = cr ∨ b = lf then line :: cut cr lf [] (c :: s)
    else cut cr lf (line ++ [b]) (c :: s)

/-- The lines behind a `cr` that has ended `line`. -/
def cutBehind (cr lf : α) (line s : List α) : List (List α) :=
  line :: cut cr lf [] (if s.head? = some lf then s.tail else s)

theorem cut_cr (line s : List α) :
    cut cr lf line (cr :: s) = cutBehind cr lf line s := by
  cases s with
  | nil => simp [cut, cutBehind]
  | cons c s =>
      by_cases hc : c = lf
      · simp [cut, cutBehind, hc]
      · simp [cut, cutBehind, hc]

theorem cut_lf (line s : List α) (hne : cr ≠ lf) :
    cut cr lf line (lf :: s) = line :: cut cr lf [] s := by
  cases s with
  | nil => simp [cut]
  | cons c s => simp [cut, hne.symm]

theorem cut_other {b : α} (line s : List α) (hcr : b ≠ cr) (hlf : b ≠ lf) :
    cut cr lf line (b :: s) = cut cr lf (line ++ [b]) s := by
  cases s with
  | nil => simp [cut, hcr, hlf]
  | cons c s => simp [cut, hcr, hlf]

/-- The first line goes on with what has been read of it. -/
theorem cut_begins {line : List α} (hline : line ≠ []) (hne : cr ≠ lf) (s : List α) :
    ∃ more ls, cut cr lf line s = (line ++ more) :: ls := by
  induction s generalizing line with
  | nil => exact ⟨[], [], by simp [cut, hline]⟩
  | cons b s ih =>
      by_cases hcr : b = cr
      · subst hcr
        rw [cut_cr line s]
        exact ⟨[], _, by rw [List.append_nil]; rfl⟩
      by_cases hlf : b = lf
      · subst hlf
        rw [cut_lf line s hne]
        exact ⟨[], _, by rw [List.append_nil]⟩
      rw [cut_other line s hcr hlf]
      obtain ⟨more, ls, hcut⟩ := @ih (line ++ [b]) (by simp)
      exact ⟨b :: more, ls, by rw [hcut, List.append_assoc, List.singleton_append]⟩

/-- All lines are empty exactly when nothing but line ends is read. -/
theorem cut_empty_iff (line s : List α) :
    (∀ l ∈ cut cr lf line s, l = []) ↔ line = [] ∧ ∀ b ∈ s, b = cr ∨ b = lf := by
  fun_induction cut cr lf line s with
  | case1 => simp
  | case2 line hline => simp [hline]
  | case3 line b hb => simp [hb]
  | case4 line b hb => simp [hb]
  | case5 line b c s hb ih => simp [hb, ih]
  | case6 line b c s hboth hb ih => simp [hb, ih]
  | case7 line b c s hboth hb ih => simp [hb, ih]

end Lines
