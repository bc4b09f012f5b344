import Lonejson.Trees

/-!
# Editing the values at a path

A value at a path of a tree is kept, dropped or replaced. A path is a list of segments: the
key of a member, or the position of an item in decimal digits. The walk meets the values in
the order of the text, and an object that it leaves before it has met one gets the missing
value as its last member.
-/

namespace Json

/-- The decimal digits of a number. -/
def decimal (n : ℕ) : Text :=
  if n = 0 then [0x30] else (Nat.digits 10 n).reverse.map fun d => (0x30 + d).toUInt8

/-- A segment that could be the position of an item. -/
def isIndex (seg : Text) : Bool := !seg.isEmpty && seg.all fun b => 0x30 ≤ b && b ≤ 0x39

/-- The rest of a path below the child at a segment; `none` is off the path. -/
def below (seg : Text) : Option (List Text) → Option (List Text)
  | some (s :: path) => if s = seg then some path else none
  | _ => none

inductive EditAction where
  | keep
  | drop
  | replace (value : Tree)

namespace EditAction

/-- What becomes of a value at the path. -/
def apply : EditAction → Tree → Option Tree
  | keep, t => some t
  | drop, _ => none
  | replace value, _ => some value

/-- The objects around a missing value. -/
def chain (value : Tree) : List Text → Option Tree
  | [] => some value
  | seg :: path =>
    if isIndex seg then none else (chain value path).map fun t => .object [(seg, t)]

/-- What an object that is left at some rest of the path gets as its last member, when no
value has been met so far. -/
def missing (ms : List (Text × Tree)) (found : Bool) :
    EditAction → Option (List Text) → Option (List (Text × Tree))
  | replace value, some (seg :: path) =>
    if found || isIndex seg || ms.any (fun m => m.1 = seg) then some []
    else (chain value path).map fun t => [(seg, t)]
  | _, _ => some []

variable (a : EditAction)

mutual

/-- The edit of a value, and whether a value has been met up to its end; `none` when a chain
of objects would need an index. -/
def edit (rest : Option (List Text)) (found : Bool) : Tree → Option (Option Tree × Bool)
  | .array ts =>
    if rest = some [] then some (a.apply (.array ts), true)
    else (editItems rest 0 found ts).map fun r => (some (.array r.1), r.2)
  | .object ms =>
    if rest = some [] then some (a.apply (.object ms), true)
    else
      (editMembers rest found ms).bind fun r =>
        (missing ms r.2 a rest).map fun more => (some (.object (r.1 ++ more)), r.2 || !more.isEmpty)
  | t => if rest = some [] then some (a.apply t, true) else some (some t, found)

def editItems (rest : Option (List Text)) (i : ℕ) (found : Bool) :
    List Tree → Option (List Tree × Bool)
  | [] => some ([], found)
  | t :: ts =>
    (edit (below (decimal i) rest) found t).bind fun r =>
      (editItems rest (i + 1) r.2 ts).map fun rs => (r.1.toList ++ rs.1, rs.2)

def editMembers (rest : Option (List Text)) (found : Bool) :
    List (Text × Tree) → Option (List (Text × Tree) × Bool)
  | [] => some ([], found)
  | (key, t) :: ms =>
    (edit (below key rest) found t).bind fun r =>
      (editMembers rest r.2 ms).map fun rs => (r.1.toList.map (fun t => (key, t)) ++ rs.1, rs.2)

end

section

variable {a}

@[simp] theorem below_none (seg : Text) : below seg none = none := rfl

@[simp] theorem below_nil (seg : Text) : below seg (some []) = none := rfl

mutual

/-- Off the path nothing changes. -/
theorem edit_none (found : Bool) : (t : Tree) → a.edit none found t = some (some t, found)
  | .null | .bool _ | .number _ | .string _ | .raw _ => rfl
  | .array ts => by rw [edit, if_neg (by simp), editItems_off (fun _ => rfl)]; rfl
  | .object ms => by
      rw [edit, if_neg (by simp), editMembers_off (fun _ => rfl)]
      cases a <;> simp [missing]

theorem editItems_off {rest : Option (List Text)} (hrest : ∀ seg, below seg rest = none) {i : ℕ}
    {found : Bool} : (ts : List Tree) → a.editItems rest i found ts = some (ts, found)
  | [] => rfl
  | t :: ts => by rw [editItems, hrest, edit_none, Option.bind_some, editItems_off hrest]; rfl

theorem editMembers_off {rest : Option (List Text)} (hrest : ∀ seg, below seg rest = none)
    {found : Bool} : (ms : List (Text × Tree)) → a.editMembers rest found ms = some (ms, found)
  | [] => rfl
  | (key, t) :: ms => by
      rw [editMembers, hrest, edit_none, Option.bind_some, editMembers_off hrest]; rfl

end

/-- An array that is copied. -/
theorem edit_array {rest : Option (List Text)} {found : Bool} (ts : List Tree)
    (h : rest ≠ some [] ∨ a = keep) : a.edit rest found (.array ts) =
      (a.editItems rest 0 (found || (rest = some [] : Bool)) ts).map
        fun r => (some (.array r.1), r.2) := by
  by_cases hrest : rest = some []
  · obtain rfl : a = keep := h.resolve_left (by simpa using hrest)
    subst hrest
    rw [edit, if_pos rfl, editItems_off below_nil]
    simp [apply]
  · rw [edit, if_neg hrest]
    simp [hrest]

/-- An object that is copied. -/
theorem edit_object {rest : Option (List Text)} {found : Bool} (ms : List (Text × Tree))
    (h : rest ≠ some [] ∨ a = keep) : a.edit rest found (.object ms) =
      (a.editMembers rest (found || (rest = some [] : Bool)) ms).bind fun r =>
        (missing ms r.2 a rest).map fun more =>
          (some (.object (r.1 ++ more)), r.2 || !more.isEmpty) := by
  by_cases hrest : rest = some []
  · obtain rfl : a = keep := h.resolve_left (by simpa using hrest)
    subst hrest
    rw [edit, if_pos rfl, editMembers_off below_nil]
    simp [apply, missing]
  · rw [edit, if_neg hrest]
    simp [hrest]

end

/-- The edit of a document. A value that is to be dropped or replaced has to be there, unless
it has been appended. -/
def editDocument (target : List Text) (t : Tree) : Option Tree :=
  (a.edit (some target) false t).bind fun r =>
    match a with
    | keep => r.1
    | _ => if r.2 then r.1 else none

end EditAction

end Json
