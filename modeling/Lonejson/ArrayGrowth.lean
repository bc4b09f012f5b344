import Lonejson.Validator

/-!
# Growing an array

`lonejson__array_ensure_bytes` over an allocator that may refuse a request. The product of the
capacity and the element size is a `size_t`, and so is its sum with the header of the block: a block
can be shorter than the capacity says.
-/

namespace Lonejson

variable {σ : Type}

/-! ## Blocks -/

/-- `sizeof(lonejson__alloc_header)`: five pointers, two sizes and a tag. -/
def allocHeaderBytes : ℕ := 64

/-- A sum of a header and a size, as it is passed to the allocator. -/
def blockBytes (size : ℕ) : ℕ := (allocHeaderBytes + size) % (sizeMax + 1)

theorem blockBytes_le (size : ℕ) : blockBytes size ≤ sizeMax :=
  Nat.le_of_lt_succ (Nat.mod_lt _ (Nat.succ_pos _))

/-- A block with its header; `bytes` is what the allocator has been asked for. -/
structure Block where
  header : AllocHeader
  bytes : ℕ
  isSize : bytes ≤ sizeMax
  deriving DecidableEq

/-- What is left of a block behind its header. -/
def Block.room (b : Block) : ℕ := b.bytes - allocHeaderBytes

/-- `lonejson__owned_malloc`; the allocator serves the request when it is `granted`. -/
def ownedMalloc (granted : Bool) (size : ℕ) : Option Block :=
  if granted then some ⟨{ size }, blockBytes size, blockBytes_le size⟩ else none

/-- `lonejson__owned_realloc`. -/
def ownedRealloc (granted : Bool) (block : Option Block) (size : ℕ) : Option Block :=
  match block with
  | none => ownedMalloc granted size
  | some b =>
    if size = 0 then some b
    else if granted then some ⟨{ b.header with size }, blockBytes size, blockBytes_le size⟩
    else none

/-- `lonejson__owned_realloc_parse`. -/
def reallocParse (env : Env σ) (granted : Bool) (c : Core σ) (block : Option Block) (size : ℕ) :
    Option Block × Core σ :=
  if allocCanGrow env c.allocLive (allocCountedBytes env (block.map Block.header)) size then
    match ownedRealloc granted block size with
    | none => (none, c)
    | some b =>
      let r := allocNoteResize env c.allocLive b.header size
      (some { b with header := r.2 }, { c with allocLive := r.1 })
  else (none, c)

/-! ## The storage of an array -/

/-- The members of an array field that say where its items are. -/
structure Storage where
  items : Option Block := none
  capacity : ℕ := 0
  count : ℕ := 0
  ownsItems : Bool := false
  fixedCapacity : Bool := false
  deriving DecidableEq

/-- `lonejson__array_ensure_bytes`. -/
def ensureBytes (env : Env σ) (granted : Bool) (c : Core σ) (a : Storage) (elemSize want : ℕ)
    (policy : OverflowPolicy) : Core σ × Storage × EnsureResult :=
  if a.capacity ≥ want then (c, a, .ok)
  else if a.fixedCapacity then
    if policy = .fail then ((c.setError .overflow "array capacity exceeded").1, a, .error)
    else ({ c with error := { c.error with truncated := true } }, a, .truncated)
  else
    match growCapacity want 65 (if a.capacity ≠ 0 then a.capacity else 4) with
    | none => ((c.setError .overflow "array too large").1, a, .error)
    | some cap =>
      let size := sizeMul cap elemSize
      if allocCanGrow env c.allocLive (allocCountedBytes env (a.items.map Block.header)) size then
        match reallocParse env granted c a.items size with
        | (none, c) => ((c.setError .allocationFailed "failed to grow array").1, a, .error)
        | (some block, c) =>
          (c, { a with capacity := cap, items := some block, ownsItems := true }, .ok)
      else
        ((c.setError .overflow "parse allocations exceed configured max bytes").1, a, .error)

/-- The storage as the parser sees it, to which every request is granted. -/
def Storage.info (a : Storage) (elemSize : ℕ) : ArrayInfo :=
  { capacity := a.capacity, elemSize, ownsItems := a.ownsItems, fixedCapacity := a.fixedCapacity
    block := a.items.map Block.header }

theorem reallocParse_granted (env : Env σ) (c : Core σ) (block : Option Block) (size : ℕ) :
    ((reallocParse env true c block size).1.map Block.header,
      (reallocParse env true c block size).2) =
      ownedReallocParse env c (block.map Block.header) size := by
  unfold reallocParse ownedReallocParse
  by_cases hgrow : allocCanGrow env c.allocLive (allocCountedBytes env (block.map Block.header))
      size = true
  · rw [if_pos hgrow, if_pos hgrow]
    cases block with
    | none => rfl
    | some b =>
        rw [ownedRealloc]
        by_cases hsize : size = 0
        · rw [if_pos hsize]
          dsimp only [Option.map]
          rw [if_pos hsize]
        · rw [if_neg hsize, if_pos rfl]
          dsimp only [Option.map]
          rw [if_neg hsize]
  · rw [if_neg hgrow, if_neg hgrow]
    rfl

/-- The parser's own `lonejson__array_ensure_bytes` is the case of an allocator that grants every
request. -/
theorem ensureBytes_granted (env : Env σ) (c : Core σ) (a : Storage) (elemSize want : ℕ)
    (policy : OverflowPolicy) :
    ((ensureBytes env true c a elemSize want policy).1,
      (ensureBytes env true c a elemSize want policy).2.1.info elemSize,
      (ensureBytes env true c a elemSize want policy).2.2) =
      arrayEnsureBytes env c (a.info elemSize) elemSize want policy := by
  rw [ensureBytes, arrayEnsureBytes]
  by_cases hcapacity : a.capacity ≥ want
  · rw [if_pos hcapacity, if_pos (show (a.info elemSize).capacity ≥ want from hcapacity)]
  rw [if_neg hcapacity, if_neg (show ¬ (a.info elemSize).capacity ≥ want from hcapacity)]
  by_cases hfixed : a.fixedCapacity = true
  · rw [if_pos hfixed, if_pos (show (a.info elemSize).fixedCapacity = true from hfixed)]
    split_ifs <;> rfl
  rw [if_neg hfixed, if_neg (show ¬ (a.info elemSize).fixedCapacity = true from hfixed)]
  rw [show (a.info elemSize).capacity = a.capacity from rfl]
  cases growCapacity want 65 (if a.capacity ≠ 0 then a.capacity else 4) with
  | none => rfl
  | some cap =>
      dsimp only
      by_cases hbudget : allocCanGrow env c.allocLive
          (allocCountedBytes env (a.items.map Block.header)) (sizeMul cap elemSize) = true
      · rw [if_pos hbudget, if_pos (show allocCanGrow env c.allocLive
          (allocCountedBytes env (a.info elemSize).block) (sizeMul cap elemSize) = true from hbudget),
          show (a.info elemSize).block = a.items.map Block.header from rfl, ← reallocParse_granted]
        generalize reallocParse env true c a.items (sizeMul cap elemSize) = r
        obtain ⟨block, c'⟩ := r
        cases block with
        | none => rfl
        | some block => rfl
      · rw [if_neg hbudget, if_neg (show ¬ allocCanGrow env c.allocLive
          (allocCountedBytes env (a.info elemSize).block) (sizeMul cap elemSize) = true from hbudget)]

/-! ## Appends -/

/-- One call of an append routine: the parser at the time, whether the allocator grants a request,
and whether the element can be stored (a string is copied first). -/
structure Append (σ : Type) where
  core : Core σ
  granted : Bool
  stored : Bool

/-- The capacity that an append asks for. -/
def Storage.want (a : Storage) : ℕ := (a.count + 1) % (sizeMax + 1)

/-- The storage behind the growing of an append. -/
def Append.ensured (env : Env σ) (elemSize : ℕ) (policy : OverflowPolicy) (a : Storage)
    (call : Append σ) : Storage × EnsureResult :=
  (ensureBytes env call.granted call.core a elemSize a.want policy).2

/-- The storage behind an append. -/
def Append.after (env : Env σ) (elemSize : ℕ) (policy : OverflowPolicy) (a : Storage)
    (call : Append σ) : Storage :=
  match call.ensured env elemSize policy a with
  | (a, .ok) => if a.count ≥ a.capacity then a else if call.stored then { a with count := a.count + 1 } else a
  | (a, _) => a

/-- Something holds of every append of a run. -/
def Along (env : Env σ) (elemSize : ℕ) (policy : OverflowPolicy)
    (P : Storage → Append σ → Prop) : Storage → List (Append σ) → Prop
  | _, [] => True
  | a, call :: calls => P a call ∧ Along env elemSize policy P (call.after env elemSize policy a) calls

instance decidableAlong (env : Env σ) (elemSize : ℕ) (policy : OverflowPolicy)
    (P : Storage → Append σ → Prop) [∀ a call, Decidable (P a call)] :
    (a : Storage) → (calls : List (Append σ)) → Decidable (Along env elemSize policy P a calls)
  | _, [] => .isTrue trivial
  | a, call :: calls =>
    have := decidableAlong env elemSize policy P (call.after env elemSize policy a) calls
    inferInstanceAs (Decidable (_ ∧ _))

/-- The block behind the items has room for as many elements as the capacity says. -/
def Storage.Truthful (elemSize : ℕ) (a : Storage) : Prop :=
  a.capacity * elemSize ≤ (a.items.map Block.room).getD 0

instance (elemSize : ℕ) (a : Storage) : Decidable (a.Truthful elemSize) :=
  inferInstanceAs (Decidable (_ ≤ _))

/-- An append that may store has a block that is long enough, and one that may not has changed
nothing. -/
def Append.Keeps (env : Env σ) (elemSize : ℕ) (policy : OverflowPolicy) (a : Storage)
    (call : Append σ) : Prop :=
  ((call.ensured env elemSize policy a).2 = .ok →
    (call.ensured env elemSize policy a).1.Truthful elemSize) ∧
  ((call.ensured env elemSize policy a).2 ≠ .ok → (call.ensured env elemSize policy a).1 = a)

/-- The capacity that an array grows to. -/
def Storage.grown (a : Storage) : Option ℕ :=
  if a.capacity ≥ a.want ∨ a.fixedCapacity then none
  else growCapacity a.want 65 (if a.capacity ≠ 0 then a.capacity else 4)

/-- The budget of the parser and the allocator let the array grow to a capacity. A block is not
touched when the size has wrapped around to nothing. -/
def Append.served (env : Env σ) (elemSize : ℕ) (a : Storage) (call : Append σ) (cap : ℕ) : Bool :=
  allocCanGrow env call.core.allocLive (allocCountedBytes env (a.items.map Block.header))
    (sizeMul cap elemSize) &&
    (call.granted || a.items.isSome && sizeMul cap elemSize == 0)

/-- The elements of the new capacity and the header of their block are a `size_t` together. -/
def Append.Fits (env : Env σ) (elemSize : ℕ) (a : Storage) (call : Append σ) : Prop :=
  ∀ cap ∈ a.grown, call.served env elemSize a cap = true →
    cap * elemSize + allocHeaderBytes ≤ sizeMax

instance (env : Env σ) (elemSize : ℕ) (a : Storage) (call : Append σ) :
    Decidable (call.Fits env elemSize a) :=
  Option.decidableForallMem a.grown

/-! ## What an append does -/

/-- A block for a product is long enough when nothing wraps around, and otherwise it is not. -/
theorem room_blockBytes (cap elemSize : ℕ) :
    cap * elemSize ≤ blockBytes (sizeMul cap elemSize) - allocHeaderBytes ↔
      cap * elemSize + allocHeaderBytes ≤ sizeMax := by
  have hbytes := blockBytes_le (sizeMul cap elemSize)
  constructor
  · intro hroom
    have hheader : allocHeaderBytes ≤ sizeMax := by decide
    omega
  · intro hfits
    have hproduct : sizeMul cap elemSize = cap * elemSize := Nat.mod_eq_of_lt (by omega)
    have hblock : blockBytes (cap * elemSize) = allocHeaderBytes + cap * elemSize :=
      Nat.mod_eq_of_lt (by omega)
    rw [hproduct, hblock, Nat.add_sub_cancel_left]

/-- The block behind a growth that is served. -/
theorem reallocParse_some {env : Env σ} {granted : Bool} {c : Core σ} {items : Option Block}
    {cap elemSize : ℕ} {b : Block}
    (h : (reallocParse env granted c items (sizeMul cap elemSize)).1 = some b) :
    cap * elemSize ≤ b.room ↔ cap * elemSize + allocHeaderBytes ≤ sizeMax := by
  rw [← room_blockBytes]
  unfold reallocParse at h
  split_ifs at h with hbudget
  cases hnext : ownedRealloc granted items (sizeMul cap elemSize) with
  | none =>
      rw [hnext] at h
      cases h
  | some next =>
      rw [hnext] at h
      obtain rfl := Option.some.inj h
      change cap * elemSize ≤ next.bytes - allocHeaderBytes ↔ _
      cases items with
      | none =>
          rw [ownedRealloc, ownedMalloc] at hnext
          split_ifs at hnext
          obtain rfl := Option.some.inj hnext
          rfl
      | some old =>
          rw [ownedRealloc] at hnext
          split_ifs at hnext with hsize hgranted
          · -- the old block stays: the product is zero, or it has wrapped around to zero
            obtain rfl := Option.some.inj hnext
            rw [room_blockBytes]
            have hold := old.isSize
            have hheader : allocHeaderBytes ≤ sizeMax := by decide
            have hwrap : cap * elemSize = 0 ∨ sizeMax < cap * elemSize := by
              by_contra hno
              have hproduct : sizeMul cap elemSize = cap * elemSize := Nat.mod_eq_of_lt (by omega)
              omega
            omega
          · obtain rfl := Option.some.inj hnext
            rfl

/-- A growth is served when the allocator grants it, or when there is nothing to ask for. -/
theorem reallocParse_isSome {env : Env σ} {granted : Bool} {c : Core σ} {items : Option Block}
    {size : ℕ}
    (hbudget : allocCanGrow env c.allocLive (allocCountedBytes env (items.map Block.header)) size =
      true) :
    (reallocParse env granted c items size).1.isSome = (granted || items.isSome && size == 0) := by
  rw [reallocParse, if_pos hbudget]
  cases items with
  | none => cases granted <;> rfl
  | some b =>
      rw [ownedRealloc]
      by_cases hsize : size = 0
      · rw [if_pos hsize, hsize]
        exact (Bool.or_true granted).symm
      · rw [if_neg hsize, beq_eq_false_iff_ne.mpr hsize]
        cases granted <;> rfl

/-- One append keeps the capacity truthful exactly when what it allocates fits. -/
theorem keeps_iff_fits {env : Env σ} {elemSize : ℕ} {policy : OverflowPolicy} {a : Storage}
    (ha : a.Truthful elemSize) (call : Append σ) :
    call.Keeps env elemSize policy a ↔ call.Fits env elemSize a := by
  have hnone (h : a.grown = none) : call.Fits env elemSize a := by
    intro cap hcap
    rw [h] at hcap
    cases hcap
  have hsame {r : Storage × EnsureResult} (h : call.ensured env elemSize policy a = r)
      (hstorage : r.1 = a) : call.Keeps env elemSize policy a := by
    rw [Append.Keeps, h, hstorage]
    exact ⟨fun _ => ha, fun _ => rfl⟩
  by_cases hcapacity : a.capacity ≥ a.want
  · refine iff_of_true (hsame (r := (a, .ok)) ?_ rfl) (hnone (if_pos (.inl hcapacity)))
    rw [Append.ensured, ensureBytes, if_pos hcapacity]
  by_cases hfixed : a.fixedCapacity = true
  · refine iff_of_true (hsame rfl ?_) (hnone (if_pos (.inr hfixed)))
    rw [Append.ensured, ensureBytes, if_neg hcapacity, if_pos hfixed]
    split_ifs <;> rfl
  have hgrown : a.grown = growCapacity a.want 65 (if a.capacity ≠ 0 then a.capacity else 4) :=
    if_neg (not_or.mpr ⟨hcapacity, hfixed⟩)
  cases hcap : growCapacity a.want 65 (if a.capacity ≠ 0 then a.capacity else 4) with
  | none =>
      refine iff_of_true (hsame rfl ?_) (hnone (hgrown.trans hcap))
      rw [Append.ensured, ensureBytes, if_neg hcapacity, if_neg hfixed, hcap]
  | some cap =>
      have hfits : call.Fits env elemSize a ↔ (call.served env elemSize a cap = true →
          cap * elemSize + allocHeaderBytes ≤ sizeMax) := by
        rw [Append.Fits, hgrown, hcap]
        exact ⟨fun h => h cap rfl, fun h cap' hcap' => Option.some.inj hcap' ▸ h⟩
      rw [hfits]
      have hensured : call.ensured env elemSize policy a =
          (ensureBytes env call.granted call.core a elemSize a.want policy).2 := rfl
      rw [ensureBytes, if_neg hcapacity, if_neg hfixed, hcap] at hensured
      dsimp only at hensured
      rw [Append.served]
      by_cases hbudget : allocCanGrow env call.core.allocLive
          (allocCountedBytes env (a.items.map Block.header)) (sizeMul cap elemSize) = true
      · rw [if_pos hbudget] at hensured
        rw [hbudget, Bool.true_and]
        rw [← reallocParse_isSome hbudget]
        cases hblock : (reallocParse env call.granted call.core a.items (sizeMul cap elemSize)).1 with
        | none =>
            refine iff_of_true (hsame (r := (a, .error)) ?_ rfl) fun hserved => by cases hserved
            rw [hensured]
            generalize reallocParse env call.granted call.core a.items (sizeMul cap elemSize) = r
              at hblock
            obtain ⟨block, c⟩ := r
            obtain rfl : block = none := hblock
            rfl
        | some b =>
            have hgrew : call.ensured env elemSize policy a =
                ({ a with capacity := cap, items := some b, ownsItems := true }, .ok) := by
              rw [hensured]
              generalize reallocParse env call.granted call.core a.items (sizeMul cap elemSize) = r
                at hblock
              obtain ⟨block, c⟩ := r
              obtain rfl : block = some b := hblock
              rfl
            rw [Append.Keeps, hgrew, ← reallocParse_some hblock]
            constructor
            · rintro ⟨hroom, -⟩ -
              exact hroom rfl
            · intro hroom
              exact ⟨fun _ => hroom rfl, fun hne => absurd rfl hne⟩
      · rw [if_neg hbudget] at hensured
        refine iff_of_true (hsame hensured rfl) fun hserved => ?_
        rw [Bool.eq_false_of_not_eq_true hbudget, Bool.false_and] at hserved
        cases hserved

/-! ## Runs of appends -/

/-- The storage stays truthful where an append keeps it so. -/
theorem Append.Keeps.after {env : Env σ} {elemSize : ℕ} {policy : OverflowPolicy} {a : Storage}
    {call : Append σ} (h : call.Keeps env elemSize policy a) (ha : a.Truthful elemSize) :
    (call.after env elemSize policy a).Truthful elemSize := by
  obtain ⟨hok, hkept⟩ := h
  rw [Append.after]
  generalize call.ensured env elemSize policy a = r at hok hkept
  obtain ⟨b, result⟩ := r
  cases result with
  | ok =>
      have hb : b.Truthful elemSize := hok rfl
      dsimp only
      split_ifs
      · exact hb
      · exact hb
      · exact hb
  | truncated =>
      obtain rfl : b = a := hkept (fun h => by cases h)
      exact ha
  | error =>
      obtain rfl : b = a := hkept (fun h => by cases h)
      exact ha

/-- A run of appends keeps the capacity truthful exactly when every growth of it fits. -/
theorem along_keeps_iff (env : Env σ) (elemSize : ℕ) (policy : OverflowPolicy) (a : Storage)
    (ha : a.Truthful elemSize) (calls : List (Append σ)) :
    Along env elemSize policy (fun a call => call.Keeps env elemSize policy a) a calls ↔
      Along env elemSize policy (fun a call => call.Fits env elemSize a) a calls := by
  induction calls generalizing a with
  | nil => exact Iff.rfl
  | cons call calls ih =>
      have hstep : call.Keeps env elemSize policy a ↔ call.Fits env elemSize a :=
        keeps_iff_fits ha call
      constructor
      · rintro ⟨hkeeps, hrest⟩
        exact ⟨hstep.mp hkeeps, (ih _ (hkeeps.after ha)).mp hrest⟩
      · rintro ⟨hfits, hrest⟩
        have hkeeps := hstep.mpr hfits
        exact ⟨hkeeps, (ih _ (hkeeps.after ha)).mpr hrest⟩

/-- An append to which everything is granted. -/
def grantedAppend : Append Unit := ⟨{ dst := [], world := () }, true, true⟩

/-- Five integers: the array grows to four and then to eight. -/
theorem along_keeps_integers :
    Along .bare 8 .fail (fun a call => call.Keeps .bare 8 .fail a) {}
      (List.replicate 5 grantedAppend) := by
  apply (along_keeps_iff .bare 8 .fail {} (by decide) _).mpr
  decide

/-- The first four elements of a quarter of the address space each get an empty block. -/
theorem along_keeps_quarter : ¬ ∀ (elemSize : ℕ) (a : Storage) (calls : List (Append Unit)),
    a.Truthful elemSize →
      Along .bare elemSize .fail (fun a call => call.Keeps .bare elemSize .fail a) a calls := by
  intro h
  have hkeeps := (h (2 ^ 62) {} [grantedAppend] (by decide)).1.1
  exact absurd (hkeeps (by decide)) (by decide)

end Lonejson
