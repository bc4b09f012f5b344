import Lonejson.Registers

/-!
# What a mark depends on

Whether a field can be marked, and where the marks lie, is decided by the innermost frame
and by the room above the frames. The text of the token decides nothing, but marks may be
written over it.
-/

namespace Lonejson

variable {σ : Type} {env : Env σ}

/-- Two parsers whose innermost frames have the same marks. -/
structure Parser.MarksAlike (p q : Parser σ) : Prop where
  top : q.workspaceTop = p.workspaceTop
  frames : ∃ f fs g gs, p.frames = f :: fs ∧ q.frames = g :: gs ∧ gs.length = fs.length ∧
    g.map = f.map ∧ g.seenMask = f.seenMask ∧ g.seenFields = f.seenFields

/-- The outcomes of a mark agree, and so does the text below it. -/
def SameMark (p q : Parser σ) (r r' : Parser σ × Status) : Prop :=
  r'.2 = r.2 ∧ r'.1.workspaceTop = r.1.workspaceTop ∧
    (q.token.data = p.token.data → q.token.bytes = p.token.bytes →
      r'.1.token.data = r.1.token.data ∧ r'.1.token.bytes = r.1.token.bytes)

section

variable {p q : Parser σ} {ref : FieldRef}

theorem markSeenMask_alike (h : p.MarksAlike q) {f g : Frame} (hmask : g.seenMask = f.seenMask)
    (idx : ℕ) (field : Field) :
    SameMark p q (markSeenMask env p f idx field) (markSeenMask env q g idx field) := by
  unfold markSeenMask
  rw [hmask]
  dsimp only
  split
  · exact ⟨rfl, h.top, fun hdata hbytes => ⟨hdata, hbytes⟩⟩
  · exact ⟨rfl, h.top, fun hdata hbytes => ⟨hdata, hbytes⟩⟩

theorem workspaceAllocTop_alike (h : p.MarksAlike q) (size : ℕ) :
    (workspaceAllocTop env p size).map Prod.fst = (workspaceAllocTop env q size).map Prod.fst := by
  obtain ⟨f, fs, g, gs, hp, hq, hlength, -⟩ := h.frames
  simp only [workspaceAllocTop, h.top, hp, hq, List.length_cons, hlength]
  split_ifs <;> rfl

theorem workspaceAllocTop_eq {size offset : ℕ} {p' : Parser σ}
    (h : workspaceAllocTop env p size = some (offset, p')) :
    offset ≤ p.workspaceTop ∧ p' = { p with workspaceTop := offset } := by
  rw [workspaceAllocTop] at h
  split_ifs at h
  cases h
  exact ⟨Nat.sub_le _ _, rfl⟩

theorem Token.zero_alike {t u : Token} (hdata : u.data = t.data) (hbytes : u.bytes = t.bytes)
    (offset len : ℕ) :
    (u.zero offset len).data = (t.zero offset len).data ∧
      (u.zero offset len).bytes = (t.zero offset len).bytes := by
  simp only [Token.zero, hdata]
  cases t.data with
  | none => exact ⟨hdata, hbytes⟩
  | some base => simp [hbytes]

theorem Token.store_alike {t u : Token} (hdata : u.data = t.data) (hbytes : u.bytes = t.bytes)
    (offset : ℕ) (value : Byte) :
    (u.store offset value).data = (t.store offset value).data ∧
      (u.store offset value).bytes = (t.store offset value).bytes := by
  simp only [Token.store, hdata, hbytes]
  cases t.data with
  | none => exact ⟨hdata, hbytes⟩
  | some base =>
      dsimp only
      split_ifs <;> simp [hbytes, hdata]

/-- The marks are found, or carved from the top, in the same place. -/
theorem ensureSeenFields_alike (h : p.MarksAlike q) {f g : Frame}
    (hseen : g.seenFields = f.seenFields) (count : ℕ) :
    (ensureSeenFields env p f count = none ∧ ensureSeenFields env q g count = none) ∨
      ∃ seen p' q', ensureSeenFields env p f count = some (seen, p') ∧
        ensureSeenFields env q g count = some (seen, q') ∧ SameMark p q (p', .ok) (q', .ok) := by
  simp only [ensureSeenFields, hseen]
  cases f.seenFields with
  | some seen => exact .inr ⟨seen, p, q, rfl, rfl, rfl, h.top, fun hdata hbytes => ⟨hdata, hbytes⟩⟩
  | none =>
      dsimp only
      have hsame := @workspaceAllocTop_alike _ env _ _ h count
      cases hp : workspaceAllocTop env p count with
      | none =>
          rw [hp] at hsame
          rw [Option.map_eq_none_iff.mp hsame.symm]
          exact .inl ⟨rfl, rfl⟩
      | some x =>
          obtain ⟨offset, p'⟩ := x
          rw [hp] at hsame
          obtain ⟨y, hq, hoffset⟩ := Option.map_eq_some_iff.mp hsame.symm
          obtain ⟨offset', q'⟩ := y
          obtain rfl : offset' = offset := hoffset
          obtain ⟨-, rfl⟩ := workspaceAllocTop_eq hp
          obtain ⟨-, rfl⟩ := workspaceAllocTop_eq hq
          rw [hq]
          exact .inr ⟨_, _, _, rfl, rfl, rfl, rfl, fun hdata hbytes =>
            Token.zero_alike hdata hbytes _ _⟩

theorem markSeenFields_alike (h : p.MarksAlike q) {f g : Frame}
    (hseen : g.seenFields = f.seenFields) (count idx : ℕ) (field : Field) :
    SameMark p q (markSeenFields env p f count idx field)
      (markSeenFields env q g count idx field) := by
  unfold markSeenFields
  rcases @ensureSeenFields_alike _ env _ _ h _ _ hseen count with
    ⟨hp, hq⟩ | ⟨seen, p', q', hp, hq, -, htop, htoken⟩
  · rw [hp, hq]
    exact ⟨rfl, h.top, fun hdata hbytes => ⟨hdata, hbytes⟩⟩
  · rw [hp, hq]
    dsimp only
    split
    · exact ⟨rfl, htop, htoken⟩
    · refine ⟨rfl, htop, fun hdata hbytes => ?_⟩
      obtain ⟨hdata', hbytes'⟩ := htoken hdata hbytes
      exact Token.store_alike hdata' hbytes' _ _

/-- A mark has one outcome in parsers that have the same marks. -/
theorem markFieldSeen_alike (h : p.MarksAlike q) (ref : FieldRef) :
    SameMark p q (markFieldSeen env p ref) (markFieldSeen env q ref) := by
  obtain ⟨f, fs, g, gs, hp, hq, -, hmap, hmask, hseen⟩ := h.frames
  have hnothing : SameMark p q (p, .ok) (q, .ok) :=
    ⟨rfl, h.top, fun hdata hbytes => ⟨hdata, hbytes⟩⟩
  simp only [markFieldSeen, hp, hq, hmap]
  cases f.map with
  | none => exact hnothing
  | some id =>
      cases env.maps.field? ref with
      | none => exact hnothing
      | some field =>
          dsimp only
          split
          · exact hnothing
          split
          · exact markSeenMask_alike h hmask _ _
          · exact markSeenFields_alike h hseen _ _ _

theorem Token.zero_length (t : Token) (offset len : ℕ) :
    (t.zero offset len).bytes.length = t.bytes.length := by
  rw [Token.zero]
  split
  · rfl
  · exact List.length_mapIdx

theorem Token.store_length (t : Token) (offset : ℕ) (value : Byte) :
    (t.store offset value).bytes.length = t.bytes.length := by
  rw [Token.store]
  split
  · rfl
  · split_ifs
    · rfl
    · exact List.length_set
    · rfl

theorem markSeenFields_length (f : Frame) (count idx : ℕ) (field : Field) :
    (markSeenFields env p f count idx field).1.token.bytes.length = p.token.bytes.length := by
  have hensure {seen : SeenFields} {q : Parser σ} (h : ensureSeenFields env p f count = some (seen, q)) :
      q.token.bytes.length = p.token.bytes.length := by
    rw [ensureSeenFields] at h
    split at h
    · cases h
      rfl
    · split at h
      · cases h
      · rename_i halloc
        obtain ⟨-, rfl⟩ := workspaceAllocTop_eq halloc
        cases h
        exact Token.zero_length _ _ _
  rw [markSeenFields]
  split
  · rfl
  · rename_i hseen
    have hlength := hensure hseen
    dsimp only
    split
    · exact hlength
    · exact (Token.store_length _ _ _).trans hlength

/-- A mark may change bytes of the token, and never their number. -/
theorem markFieldSeen_length (ref : FieldRef) :
    (markFieldSeen env p ref).1.token.bytes.length = p.token.bytes.length := by
  rw [markFieldSeen]
  split
  · rfl
  split
  · split_ifs
    · rfl
    · rw [markSeenMask]
      dsimp only
      split <;> rfl
    · exact markSeenFields_length _ _ _ _
  · rfl

/-- A mark that fails is an error, and nothing is stored. -/
def FailsMark (p : Parser σ) (r : Parser σ × Status) : Prop :=
  r.2.soft = false ∧ r.1.core.error.code = r.2 ∧ r.1.core.dst = p.core.dst ∧
    r.1.core.world = p.core.world

theorem ensureSeenFields_core {f : Frame} {count : ℕ} {seen : SeenFields} {q : Parser σ}
    (h : ensureSeenFields env p f count = some (seen, q)) : q.core = p.core := by
  obtain ⟨top, token, rfl⟩ := ensureSeenFields_some h
  rfl

theorem markFieldSeen_fails (ref : FieldRef) (h : (markFieldSeen env p ref).2 ≠ .ok) :
    FailsMark p (markFieldSeen env p ref) := by
  unfold markFieldSeen at h ⊢
  split at h
  · exact absurd rfl h
  rename_i f fs hframes
  split at h
  swap
  · exact absurd rfl h
  rename_i id field hmap hfield
  split_ifs at h ⊢
  · exact absurd rfl h
  · unfold markSeenMask at h ⊢
    dsimp only at h ⊢
    split_ifs at h ⊢
    · exact ⟨rfl, rfl, rfl, rfl⟩
    · exact absurd rfl h
  · unfold markSeenFields at h ⊢
    cases hseen : ensureSeenFields env p f (env.maps id).fieldCount with
    | none => exact ⟨rfl, rfl, rfl, rfl⟩
    | some x =>
        obtain ⟨seen, q⟩ := x
        have hcore := ensureSeenFields_core hseen
        rw [hseen] at h
        dsimp only at h ⊢
        split_ifs at h ⊢
        · have hdst : q.core.dst = p.core.dst := by rw [hcore]
          have hworld : q.core.world = p.core.world := by rw [hcore]
          exact ⟨rfl, rfl, hdst, hworld⟩
        · exact absurd rfl h

/-! ## Marks over the token -/

/-- The marks of the innermost frame, which are allocated with the first of them, would take up
some of the first `n` bytes behind the token base. -/
def Parser.marksOver (env : Env σ) (ref : FieldRef) (p : Parser σ) (n : ℕ) : Bool :=
  match p.frames with
  | [] => false
  | f :: _ =>
    f.map == some ref.map && decide (64 < (env.maps ref.map).fieldCount) && f.seenFields.isNone &&
      decide (p.workspaceTop - workspaceAlign env (env.maps ref.map).fieldCount <
        tokenBase env p + n)

theorem Token.store_above {t : Token} {base offset : ℕ} (hdata : t.data = some base)
    (hoffset : base + t.bytes.length ≤ offset) (value : Byte) :
    (t.store offset value).bytes = t.bytes := by
  rw [Token.store, hdata]
  dsimp only
  split_ifs
  · rfl
  · exact List.set_eq_of_length_le (by omega)
  · rfl

theorem Token.zero_above {t : Token} {base offset : ℕ} (hdata : t.data = some base)
    (hoffset : base + t.bytes.length ≤ offset) (len : ℕ) : (t.zero offset len).bytes = t.bytes := by
  rw [Token.zero, hdata]
  dsimp only
  apply List.ext_getElem (by simp)
  intro i hi hi'
  rw [List.getElem_mapIdx, if_neg (by omega)]

/-- Zeros over a token, one of which may be set to a mark. -/
theorem Token.marked_below {t : Token} {base offset len idx : ℕ} (hdata : t.data = some base)
    (hbase : base ≤ offset) (hoffset : offset < base + t.bytes.length) (hlen : 0 < len) :
    ∃ b ∈ ((t.zero offset len).store (offset + idx) 1).bytes, b ≤ 1 := by
  have hzero : (t.zero offset len).bytes[offset - base]? = some 0 := by
    rw [Token.zero, hdata]
    dsimp only
    rw [List.getElem?_mapIdx, List.getElem?_eq_getElem (by omega), Option.map_some,
      if_pos (by omega)]
  have hdata' : (t.zero offset len).data = some base := by
    rw [Token.zero, hdata]
  rw [Token.store, hdata']
  dsimp only
  split_ifs
  · exact ⟨0, List.mem_of_getElem? hzero, by decide⟩
  · by_cases hidx : idx = 0
    · subst hidx
      refine ⟨1, ?_, le_refl 1⟩
      have hin : offset - base < (t.zero offset len).bytes.length := by
        rw [Token.zero_length]
        omega
      exact List.mem_of_getElem? (i := offset - base) (by simp [hin])
    · refine ⟨0, List.mem_of_getElem? (i := offset - base) ?_, by decide⟩
      rw [List.getElem?_set_ne (by omega)]
      exact hzero
  · omega

/-- The first mark of a frame, as the token sees it. -/
theorem markSeenFields_first {f : Frame} {count idx : ℕ} {field : Field} (hseen : f.seenFields = none)
    (hidx : idx < count) (hok : (markSeenFields env p f count idx field).2 = .ok) :
    tokenBase env p ≤ p.workspaceTop - workspaceAlign env count ∧
      (markSeenFields env p f count idx field).1.token =
        (p.token.zero (p.workspaceTop - workspaceAlign env count) count).store
          (p.workspaceTop - workspaceAlign env count + idx) 1 := by
  rw [markSeenFields, ensureSeenFields, hseen, workspaceAllocTop] at hok ⊢
  dsimp only at hok ⊢
  split_ifs at hok ⊢ with hfull
  · cases hok
  rw [not_or, Nat.not_lt, Nat.not_lt] at hfull
  have hfirst : (List.replicate count (0 : Byte))[idx]? = some 0 := List.getElem?_replicate_of_lt hidx
  dsimp only
  rw [hfirst, if_neg (by simp)]
  exact ⟨hfull.2, rfl⟩

/-- A mark leaves the text of a token exactly when it is not carved out of it. -/
theorem markFieldSeen_text {text : Bytes} {field : Field}
    (htoken : p.token.data = some (tokenBase env p)) (hbytes : p.token.bytes = text)
    (hfield : env.maps.field? ref = some field) (hok : (markFieldSeen env p ref).2 = .ok)
    (htext : ∀ b ∈ text, 1 < b) (hroom : tokenBase env p + text.length < p.workspaceTop)
    (habove : ∀ f ∈ p.frames, ∀ seen, f.seenFields = some seen → p.workspaceTop ≤ seen.offset) :
    (markFieldSeen env p ref).1.token.bytes = text ↔ p.marksOver env ref text.length = false := by
  rw [markFieldSeen, Parser.marksOver] at *
  cases hframes : p.frames with
  | nil => exact iff_of_true hbytes rfl
  | cons f fs =>
  rw [hframes] at hok
  dsimp only at hok ⊢
  by_cases hmap : f.map = some ref.map
  swap
  · have hother : (f.map == some ref.map) = false := beq_eq_false_iff_ne.mpr hmap
    rw [hother, hfield]
    refine iff_of_true ?_ rfl
    cases hid : f.map with
    | none => exact hbytes
    | some id =>
        have hne : ref.map ≠ id := by
          rintro rfl
          exact hmap hid
        dsimp only
        rw [if_pos hne]
        exact hbytes
  rw [hmap, hfield] at hok ⊢
  dsimp only at hok ⊢
  rw [if_neg (not_not.mpr rfl)] at hok ⊢
  by_cases hsmall : (env.maps ref.map).fieldCount ≤ 64
  · rw [if_pos hsmall]
    have hfew : decide (64 < (env.maps ref.map).fieldCount) = false :=
      decide_eq_false (Nat.not_lt.mpr hsmall)
    rw [hfew]
    refine iff_of_true ?_ (by simp)
    rw [markSeenMask]
    dsimp only
    split <;> exact hbytes
  rw [if_neg hsmall] at hok ⊢
  have hmany : decide (64 < (env.maps ref.map).fieldCount) = true :=
    decide_eq_true (Nat.not_le.mp hsmall)
  rw [hmany, beq_self_eq_true]
  cases hseen : f.seenFields with
  | some seen =>
      have hensure : ensureSeenFields env p f (env.maps ref.map).fieldCount = some (seen, p) := by
        rw [ensureSeenFields, hseen]
      refine iff_of_true ?_ (by simp)
      have hoffset := habove f (by simp [hframes]) seen hseen
      rw [markSeenFields, hensure]
      dsimp only
      split
      · exact hbytes
      · refine (Token.store_above (t := p.token) htoken ?_ 1).trans hbytes
        rw [hbytes]
        omega
  | none =>
      have hidx : ref.idx < (env.maps ref.map).fieldCount :=
        (List.getElem?_eq_some_iff.mp hfield).1
      obtain ⟨hbase, htoken'⟩ := markSeenFields_first hseen hidx hok
      rw [htoken']
      generalize p.workspaceTop - workspaceAlign env (env.maps ref.map).fieldCount = offset at hbase
      simp only [Option.isNone_none, Bool.true_and, decide_eq_false_iff_not, Nat.not_lt]
      constructor
      · intro hsame
        by_contra hbelow
        obtain ⟨b, hb, hle⟩ := @Token.marked_below p.token (tokenBase env p) offset
          (env.maps ref.map).fieldCount ref.idx htoken hbase (by rw [hbytes]; omega) (by omega)
        rw [hsame] at hb
        exact absurd (htext b hb) (UInt8.not_lt.mpr hle)
      · intro habove
        have hzero := @Token.zero_above p.token (tokenBase env p) offset htoken
          (by rw [hbytes]; exact habove) (env.maps ref.map).fieldCount
        have hdata : (p.token.zero offset (env.maps ref.map).fieldCount).data =
            some (tokenBase env p) := by
          rw [Token.zero, htoken]
        refine (Token.store_above hdata ?_ 1).trans (hzero.trans hbytes)
        rw [hzero, hbytes]
        omega

end

end Lonejson
