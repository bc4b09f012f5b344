import Lonejson.Grammar

/-!
# A stack machine for the grammar

A machine that reads one byte at a time, with a stack of open containers, a lexer for
strings and the text of the number being read. What a state still demands of the text
is a language built from the nonterminals of the grammar; one step of the machine is
exactly one byte of that demand, so the machine accepts the JSON texts.
-/

namespace Json

/-- A lexer for what follows an opening quote: `none` rejects the byte, `some none` is
the closing quote. -/
structure Lexer (S : Type) where
  start : S
  next : S → UInt8 → Option (Option S)

/-- The tails a lexer accepts. -/
inductive Lexer.Tail {S : Type} (L : Lexer S) : S → Text → Text → Prop where
  | close {s : S} {b : UInt8} {r : Text} (h : L.next s b = some none) : Tail L s (b :: r) r
  | step {s s' : S} {b : UInt8} {i r : Text} (h : L.next s b = some (some s'))
      (t : Tail L s' i r) : Tail L s (b :: i) r

@[simp] theorem Lexer.not_tail_nil {S : Type} (L : Lexer S) (s : S) (r : Text) :
    ¬ L.Tail s [] r := by
  intro h
  cases h

theorem Lexer.tail_cons {S : Type} (L : Lexer S) (s : S) (b : UInt8) (i r : Text) :
    L.Tail s (b :: i) r ↔
      (L.next s b = some none ∧ r = i) ∨ ∃ s', L.next s b = some (some s') ∧ L.Tail s' i r := by
  constructor
  · intro h
    cases h with
    | close h => exact .inl ⟨h, rfl⟩
    | step h t => exact .inr ⟨_, h, t⟩
  · rintro (⟨h, rfl⟩ | ⟨s', h, t⟩)
    · exact .close h
    · exact .step h t

/-- Two lexers whose states are related treat every byte alike. -/
structure Lexer.Matches {S T : Type} (L : Lexer S) (L' : Lexer T) (rel : S → T → Prop) : Prop where
  start : rel L.start L'.start
  next : ∀ s t b, rel s t → Option.Rel (Option.Rel rel) (L.next s b) (L'.next t b)

theorem Lexer.Matches.tail_iff {S T : Type} {L : Lexer S} {L' : Lexer T} {rel : S → T → Prop}
    (h : L.Matches L' rel) {s : S} {t : T} (hrel : rel s t) (i r : Text) :
    L.Tail s i r ↔ L'.Tail t i r := by
  induction i generalizing s t with
  | nil => simp
  | cons b i ih =>
      have hnext := h.next s t b hrel
      rw [tail_cons, tail_cons]
      generalize L.next s b = o at hnext
      generalize L'.next t b = o' at hnext
      cases hnext with
      | none => simp
      | some hnext =>
          cases hnext with
          | none => simp
          | some hrel => simp [ih hrel]

/-- The state in which a lexer meets the closing quote. -/
inductive Lexer.Ends {S : Type} (L : Lexer S) : S → Text → S → Text → Prop where
  | close {s : S} {b : UInt8} {r : Text} (h : L.next s b = some none) : Ends L s (b :: r) s r
  | step {s s' t : S} {b : UInt8} {i r : Text} (h : L.next s b = some (some s'))
      (hrest : Ends L s' i t r) : Ends L s (b :: i) t r

theorem Lexer.tail_iff_ends {S : Type} {L : Lexer S} {s : S} {i r : Text} :
    L.Tail s i r ↔ ∃ t, L.Ends s i t r := by
  constructor
  · intro h
    induction h with
    | close h => exact ⟨_, .close h⟩
    | step h _ ih =>
        obtain ⟨t, ht⟩ := ih
        exact ⟨t, .step h ht⟩
  · rintro ⟨t, h⟩
    induction h with
    | close h => exact .close h
    | step h _ ih => exact .step h ih

/-- The start of a lexer does not matter to what it reads from a state. -/
theorem Lexer.Ends.congr {S : Type} {L L' : Lexer S} (hnext : L.next = L'.next) {s t : S}
    {i r : Text} (h : L.Ends s i t r) : L'.Ends s i t r := by
  induction h with
  | close h => exact .close (hnext ▸ h)
  | step h _ ih => exact .step (hnext ▸ h) ih

/-- A lexer that keeps to some of its states. -/
def Lexer.within {S : Type} (L : Lexer S) (fits : S → Bool) : Lexer S where
  start := L.start
  next s b :=
    match L.next s b with
    | some (some s') => if fits s' then some (some s') else none
    | o => o

theorem Lexer.within_close {S : Type} {L : Lexer S} {fits : S → Bool} {s : S} {b : UInt8} :
    (L.within fits).next s b = some none ↔ L.next s b = some none := by
  rw [within]
  dsimp only
  rcases L.next s b with _ | _ | s'
  · simp
  · simp
  · cases hfits : fits s' <;> simp [hfits]

theorem Lexer.within_step {S : Type} {L : Lexer S} {fits : S → Bool} {s s' : S} {b : UInt8} :
    (L.within fits).next s b = some (some s') ↔ L.next s b = some (some s') ∧ fits s' = true := by
  rw [within]
  dsimp only
  rcases L.next s b with _ | _ | t
  · simp
  · simp
  · simp only [Option.ite_none_right_eq_some, Option.some.injEq]
    constructor
    · rintro ⟨hfits, rfl⟩
      exact ⟨rfl, hfits⟩
    · rintro ⟨rfl, hfits⟩
      exact ⟨hfits, rfl⟩

theorem Lexer.within_next {S : Type} {L : Lexer S} {fits : S → Bool} {s : S} {b : UInt8}
    {o : Option S} (h : (L.within fits).next s b = some o) :
    L.next s b = some o ∧ ∀ s', o = some s' → fits s' = true := by
  cases o with
  | none => exact ⟨within_close.mp h, by simp⟩
  | some s' =>
      obtain ⟨hnext, hfits⟩ := within_step.mp h
      exact ⟨hnext, fun t ht => Option.some.inj ht ▸ hfits⟩

/-- When what fits has fitted all along, only the end of a string has to fit. -/
theorem Lexer.within_tail {S : Type} {L : Lexer S} {fits : S → Bool}
    (hback : ∀ s s' b, L.next s b = some (some s') → fits s' = true → fits s = true) {s : S}
    (hs : fits s = true) {i r : Text} :
    (L.within fits).Tail s i r ↔ ∃ t, L.Ends s i t r ∧ fits t = true := by
  constructor
  · intro h
    induction h with
    | close h => exact ⟨_, .close (within_close.mp h), hs⟩
    | step h _ ih =>
        obtain ⟨hnext, hfits⟩ := within_step.mp h
        obtain ⟨t, hends, ht⟩ := ih hfits
        exact ⟨t, .step hnext hends, ht⟩
  · rintro ⟨t, hends, ht⟩
    have hwhole : (L.within fits).Tail s i r ∧ fits s = true := by
      clear hs
      induction hends with
      | close h => exact ⟨.close (within_close.mpr h), ht⟩
      | step h _ ih =>
          obtain ⟨htail, hfits⟩ := ih ht
          exact ⟨.step (within_step.mpr ⟨h, hfits⟩) htail, hback _ _ _ h hfits⟩
    exact hwhole.1

inductive Bracket where
  | object
  | array
  deriving DecidableEq, Repr

/-- The parameters of the machine. -/
structure Machine (S : Type) where
  /-- The lexer of keys, or of strings, at a depth. -/
  lexer : Bool → ℕ → Lexer S
  numberStart : UInt8 → Bool
  numberByte : UInt8 → Bool
  number : Text → Bool
  fitsNumber : ℕ → ℕ → Bool
  fitsLiteral : ℕ → ℕ → Bool
  enter : ℕ → UInt8 → Bool

/-- What the machine reads next. -/
inductive Mode (S : Type) where
  | value
  | itemOrEnd
  | keyOrEnd
  | key
  | colon
  | after
  | string (isKey : Bool) (s : S)
  | number (text : Text)
  | literal (done : ℕ) (rest : Text)
  deriving DecidableEq, Repr

/-- The innermost container is the head of the stack. -/
structure State (S : Type) where
  mode : Mode S
  stack : List Bracket
  deriving DecidableEq, Repr

variable {S : Type} (M : Machine S)

/-- The rules of the grammar that a machine reads. -/
def Machine.rules : Rules where
  stringTail d := (M.lexer false d).Tail (M.lexer false d).start
  keyTail d := (M.lexer true d).Tail (M.lexer true d).start
  number t := M.number t = true
  fitsNumber := M.fitsNumber
  fitsLiteral := M.fitsLiteral
  enter := M.enter

@[simp] theorem Machine.rules_stringTail (d : ℕ) :
    M.rules.stringTail d = (M.lexer false d).Tail (M.lexer false d).start := rfl

@[simp] theorem Machine.rules_keyTail (d : ℕ) :
    M.rules.keyTail d = (M.lexer true d).Tail (M.lexer true d).start := rfl

/-- The facts about number bytes that make one byte of lookahead enough. -/
structure Machine.Lawful : Prop where
  start_byte : ∀ b, M.numberStart b = true → M.numberByte b = true
  not_space : ∀ b, M.numberByte b = true → isSpace b = false
  not_close : ∀ b, M.numberByte b = true → b ≠ 0x2c ∧ b ≠ 0x7d ∧ b ≠ 0x5d
  not_open : ∀ b, M.numberStart b = true →
    b ≠ 0x22 ∧ b ≠ 0x7b ∧ b ≠ 0x5b ∧ b ≠ 0x74 ∧ b ≠ 0x66 ∧ b ≠ 0x6e
  number_start : ∀ t, M.number t = true → ∃ b t', t = b :: t' ∧ M.numberStart b = true
  number_bytes : ∀ t, M.number t = true → ∀ b ∈ t, M.numberByte b = true
  fits_mono : ∀ d n m, n ≤ m → M.fitsNumber d m = true → M.fitsNumber d n = true
  literal_mono : ∀ d n m, n ≤ m → M.fitsLiteral d m = true → M.fitsLiteral d n = true

/-! ## The step function -/

/-- The byte after a value. -/
def stepAfter (stack : List Bracket) (b : UInt8) : Option (State S) :=
  if isSpace b then some ⟨.after, stack⟩
  else
    match stack with
    | [] => none
    | .object :: outer =>
      if b = 0x2c then some ⟨.key, .object :: outer⟩
      else if b = 0x7d then some ⟨.after, outer⟩
      else none
    | .array :: outer =>
      if b = 0x2c then some ⟨.value, .array :: outer⟩
      else if b = 0x5d then some ⟨.after, outer⟩
      else none

/-- The first byte of a literal. -/
def stepLiteral (stack : List Bracket) (rest : Text) : Option (State S) :=
  if M.fitsLiteral stack.length 1 then some ⟨.literal 1 rest, stack⟩ else none

/-- The first byte of a value. -/
def stepValue (stack : List Bracket) (b : UInt8) : Option (State S) :=
  if b = 0x22 then
    if M.enter stack.length 0x22 then some ⟨.string false (M.lexer false stack.length).start, stack⟩
    else none
  else if b = 0x7b then
    if M.enter stack.length 0x7b then some ⟨.keyOrEnd, .object :: stack⟩ else none
  else if b = 0x5b then
    if M.enter stack.length 0x5b then some ⟨.itemOrEnd, .array :: stack⟩ else none
  else if b = 0x74 then stepLiteral M stack [0x72, 0x75, 0x65]
  else if b = 0x66 then stepLiteral M stack [0x61, 0x6c, 0x73, 0x65]
  else if b = 0x6e then stepLiteral M stack [0x75, 0x6c, 0x6c]
  else if M.numberStart b then
    if M.fitsNumber stack.length 1 then some ⟨.number [b], stack⟩ else none
  else none

/-- The opening quote of a key. -/
def stepKey (stack : List Bracket) (b : UInt8) : Option (State S) :=
  if b = 0x22 ∧ M.enter stack.length 0x22 then
    some ⟨.string true (M.lexer true stack.length).start, stack⟩
  else none

/-- The mode after a string. -/
def afterString (isKey : Bool) : Mode S := if isKey then .colon else .after

/-- One byte. -/
def step (st : State S) (b : UInt8) : Option (State S) :=
  match st.mode with
  | .value => if isSpace b then some st else stepValue M st.stack b
  | .itemOrEnd =>
    match st.stack with
    | .array :: outer =>
      if isSpace b then some st
      else if b = 0x5d then some ⟨.after, outer⟩
      else stepValue M st.stack b
    | _ => none
  | .keyOrEnd =>
    match st.stack with
    | .object :: outer =>
      if isSpace b then some st
      else if b = 0x7d then some ⟨.after, outer⟩
      else stepKey M st.stack b
    | _ => none
  | .key =>
    match st.stack with
    | .object :: _ => if isSpace b then some st else stepKey M st.stack b
    | _ => none
  | .colon =>
    match st.stack with
    | .object :: _ =>
      if isSpace b then some st
      else if b = 0x3a then some ⟨.value, st.stack⟩
      else none
    | _ => none
  | .after => stepAfter st.stack b
  | .string isKey s =>
    match (M.lexer isKey st.stack.length).next s b with
    | none => none
    | some none => some ⟨afterString isKey, st.stack⟩
    | some (some s') => some ⟨.string isKey s', st.stack⟩
  | .number text =>
    if M.numberByte b then
      if M.fitsNumber st.stack.length (text.length + 1) then
        some ⟨.number (text ++ [b]), st.stack⟩
      else none
    else if M.number text then stepAfter st.stack b
    else none
  | .literal done rest =>
    match rest with
    | [] => none
    | c :: rest =>
      if b = c ∧ M.fitsLiteral st.stack.length (done + 1) then
        if rest = [] then some ⟨.after, st.stack⟩
        else some ⟨.literal (done + 1) rest, st.stack⟩
      else none

/-- A run of the machine. -/
def run : Option (State S) → Text → Option (State S)
  | st, [] => st
  | none, _ :: _ => none
  | some st, b :: s => run (step M st b) s

/-- The states in which the text may end. -/
def accepting (st : State S) : Bool :=
  match st.mode with
  | .after => st.stack.isEmpty
  | .number text => M.number text && st.stack.isEmpty
  | _ => false

def initial : State S := ⟨.value, []⟩

/-- The machine accepts a text. -/
def accepts (s : Text) : Bool := (run M (some initial) s).any (accepting M)

@[simp] theorem run_nil (st : Option (State S)) : run M st [] = st := by
  cases st <;> rfl

@[simp] theorem run_cons_some (st : State S) (b : UInt8) (s : Text) :
    run M (some st) (b :: s) = run M (step M st b) s := rfl

@[simp] theorem run_none (s : Text) : run M none s = none := by
  cases s <;> rfl

/-- A run splits at any point. -/
theorem run_append (st : Option (State S)) (s t : Text) :
    run M st (s ++ t) = run M (run M st s) t := by
  induction s generalizing st with
  | nil => simp
  | cons b s ih =>
      cases st with
      | none => simp
      | some st => simpa using ih (step M st b)

/-! ## What a state demands -/

/-- The texts that may follow a complete value. -/
def Closes : List Bracket → Text → Prop
  | [], s => Space s []
  | .object :: outer, s =>
    (∃ r, Space s (0x7d :: r) ∧ Closes outer r) ∨
      ∃ j r, Space s (0x2c :: j) ∧ Members M.rules (outer.length + 1) j r ∧ Closes outer r
  | .array :: outer, s =>
    (∃ r, Space s (0x5d :: r) ∧ Closes outer r) ∨
      ∃ j r, Space s (0x2c :: j) ∧ Items M.rules (outer.length + 1) j r ∧ Closes outer r

/-- The texts that start with an element. -/
def DemandValue (stack : List Bracket) (s : Text) : Prop :=
  ∃ j r, Space s j ∧ Value M.rules stack.length j r ∧ Closes M stack r

/-- The texts that start with a colon and an element. -/
def DemandColon (stack : List Bracket) (s : Text) : Prop :=
  ∃ l, Space s (0x3a :: l) ∧ DemandValue M stack l

/-- The texts that start with a key. -/
def DemandKey (stack : List Bracket) (s : Text) : Prop :=
  ∃ j k, Space s (0x22 :: j) ∧ M.enter stack.length 0x22 = true ∧
    M.rules.keyTail stack.length j k ∧ DemandColon M stack k

/-- The texts that take a state to the end. -/
def Demand (st : State S) (s : Text) : Prop :=
  match st.mode with
  | .value => DemandValue M st.stack s
  | .itemOrEnd =>
    ∃ outer, st.stack = .array :: outer ∧
      ((∃ r, Space s (0x5d :: r) ∧ Closes M outer r) ∨ DemandValue M st.stack s)
  | .keyOrEnd =>
    ∃ outer, st.stack = .object :: outer ∧
      ((∃ r, Space s (0x7d :: r) ∧ Closes M outer r) ∨ DemandKey M st.stack s)
  | .key => ∃ outer, st.stack = .object :: outer ∧ DemandKey M st.stack s
  | .colon => ∃ outer, st.stack = .object :: outer ∧ DemandColon M st.stack s
  | .after => Closes M st.stack s
  | .string isKey q =>
    ∃ r, (M.lexer isKey st.stack.length).Tail q s r ∧
      if isKey then ∃ outer, st.stack = .object :: outer ∧ DemandColon M st.stack r
      else Closes M st.stack r
  | .number text =>
    ∃ more r, s = more ++ r ∧ M.number (text ++ more) = true ∧
      (more = [] ∨ M.fitsNumber st.stack.length (text ++ more).length = true) ∧
      Closes M st.stack r
  | .literal done rest =>
    ∃ r, rest ≠ [] ∧ s = rest ++ r ∧
      M.fitsLiteral st.stack.length (done + rest.length) = true ∧ Closes M st.stack r

/-- The same for a run that may have failed. -/
def DemandSome (st : Option (State S)) (s : Text) : Prop :=
  ∃ q, st = some q ∧ Demand M q s

@[simp] theorem demandSome_none (s : Text) : ¬ DemandSome M none s := by
  rintro ⟨q, hq, -⟩
  cases hq

@[simp] theorem demandSome_some (q : State S) (s : Text) :
    DemandSome M (some q) s ↔ Demand M q s := by
  constructor
  · rintro ⟨q', hq, h⟩
    cases hq
    exact h
  · intro h
    exact ⟨q, rfl, h⟩

/-! ## The demand behind a value -/

/-- The members that remain are a key and what follows it. -/
theorem members_iff (outer : List Bracket) (s : Text) :
    (∃ r, Members M.rules (outer.length + 1) s r ∧ Closes M outer r) ↔
      DemandKey M (.object :: outer) s := by
  constructor
  · rintro ⟨r, hmembers, hcloses⟩
    cases hmembers with
    | last hmember =>
        obtain ⟨hi, henter, hkey, hk, hi', hvalue, hrest⟩ := hmember
        exact ⟨_, _, hi, henter, hkey, _, hk, _, _, hi', hvalue, .inl ⟨r, hrest, hcloses⟩⟩
    | cons hmember htail =>
        obtain ⟨hi, henter, hkey, hk, hi', hvalue, hrest⟩ := hmember
        exact ⟨_, _, hi, henter, hkey, _, hk, _, _, hi', hvalue, .inr ⟨_, r, hrest, htail, hcloses⟩⟩
  · rintro ⟨j, k, hi, henter, hkey, l, hk, j', r, hi', hvalue, hrest⟩
    rcases hrest with ⟨r', hrest, hcloses⟩ | ⟨j'', r', hrest, htail, hcloses⟩
    · exact ⟨r', .last ⟨hi, henter, hkey, hk, hi', hvalue, hrest⟩, hcloses⟩
    · exact ⟨r', .cons ⟨hi, henter, hkey, hk, hi', hvalue, hrest⟩ htail, hcloses⟩

/-- The items that remain are an element and what follows it. -/
theorem items_iff (outer : List Bracket) (s : Text) :
    (∃ r, Items M.rules (outer.length + 1) s r ∧ Closes M outer r) ↔
      DemandValue M (.array :: outer) s := by
  constructor
  · rintro ⟨r, hitems, hcloses⟩
    cases hitems with
    | last helement =>
        obtain ⟨hi, hvalue, hrest⟩ := helement
        exact ⟨_, _, hi, hvalue, .inl ⟨r, hrest, hcloses⟩⟩
    | cons helement htail =>
        obtain ⟨hi, hvalue, hrest⟩ := helement
        exact ⟨_, _, hi, hvalue, .inr ⟨_, r, hrest, htail, hcloses⟩⟩
  · rintro ⟨j, r, hi, hvalue, hrest⟩
    rcases hrest with ⟨r', hrest, hcloses⟩ | ⟨j', r', hrest, htail, hcloses⟩
    · exact ⟨r', .last ⟨hi, hvalue, hrest⟩, hcloses⟩
    · exact ⟨r', .cons ⟨hi, hvalue, hrest⟩ htail, hcloses⟩

/-- A blank behind a value changes nothing. -/
theorem closes_blank {b : UInt8} (hb : isSpace b = true) (stack : List Bracket) (s : Text) :
    Closes M stack (b :: s) ↔ Closes M stack s := by
  have hcons (c : UInt8) (hc : isSpace c = false) (r : Text) :
      Space (b :: s) (c :: r) ↔ Space s (c :: r) := space_cons_blank hb hc
  cases stack with
  | nil =>
      constructor
      · intro h
        cases h with
        | skip _ h => exact h
      · exact .skip hb
  | cons bracket outer =>
      cases bracket <;> simp [Closes, hcons, isSpace]

/-- A byte behind a value is a separator or a closing bracket. -/
theorem closes_step (b : UInt8) (stack : List Bracket) (s : Text) :
    Closes M stack (b :: s) ↔ DemandSome M (stepAfter stack b) s := by
  unfold stepAfter
  split
  · next hb => simp [closes_blank M hb, Demand]
  · next hb =>
    have hsolid {r : Text} : Space (b :: s) r ↔ r = b :: s := space_cons_solid (by simpa using hb)
    cases stack with
    | nil => simp [Closes, hsolid]
    | cons bracket outer =>
        cases bracket with
        | object =>
            have hkey : Closes M (.object :: outer) (b :: s) ↔
                (b = 0x7d ∧ Closes M outer s) ∨
                  (b = 0x2c ∧ DemandKey M (.object :: outer) s) := by
              rw [← members_iff]
              simp only [Closes, hsolid, List.cons.injEq]
              grind
            rw [hkey]
            dsimp only
            split
            · next h => simp [h, Demand]
            · next h =>
              split
              · next h' => simp [h', Demand]
              · next h' => simp [h, h']
        | array =>
            have hitem : Closes M (.array :: outer) (b :: s) ↔
                (b = 0x5d ∧ Closes M outer s) ∨
                  (b = 0x2c ∧ DemandValue M (.array :: outer) s) := by
              rw [← items_iff]
              simp only [Closes, hsolid, List.cons.injEq]
              grind
            rw [hitem]
            dsimp only
            split
            · next h => simp [h, Demand]
            · next h =>
              split
              · next h' => simp [h', Demand]
              · next h' => simp [h, h']

/-- A number is not continued by what may follow a value. -/
theorem not_closes_numberByte (hM : M.Lawful) {b : UInt8} (hb : M.numberByte b = true)
    (stack : List Bracket) (s : Text) : ¬ Closes M stack (b :: s) := by
  obtain ⟨hcomma, hbrace, hbracket⟩ := hM.not_close b hb
  rw [closes_step]
  unfold stepAfter
  simp only [hM.not_space b hb, Bool.false_eq_true, if_false, hcomma, hbrace, hbracket]
  split <;> simp

/-! ## The demand of a value -/

/-- A number that is being read takes one more byte, or it ends there. -/
theorem number_step (hM : M.Lawful) (stack : List Bracket) (text : Text) (b : UInt8) (s : Text) :
    Demand M ⟨.number text, stack⟩ (b :: s) ↔ DemandSome M (step M ⟨.number text, stack⟩ b) s := by
  simp only [step]
  split
  · next hb =>
    constructor
    · rintro ⟨more, r, hs, hnumber, hfits, hcloses⟩
      cases more with
      | nil =>
          simp only [List.nil_append] at hs
          exact absurd (hs ▸ hcloses) (not_closes_numberByte M hM hb stack s)
      | cons c more =>
          obtain ⟨rfl, rfl⟩ : b = c ∧ s = more ++ r := by simpa using hs
          have hfits : M.fitsNumber stack.length (text ++ b :: more).length = true := by
            simpa using hfits
          have hroom : M.fitsNumber stack.length (text.length + 1) = true :=
            hM.fits_mono _ _ _ (by simp) hfits
          simp only [hroom, if_true, demandSome_some]
          exact ⟨more, r, rfl, by simpa using hnumber, .inr (by simpa using hfits), hcloses⟩
    · split
      · next hroom =>
        rw [demandSome_some]
        rintro ⟨more, r, rfl, hnumber, hfits, hcloses⟩
        refine ⟨b :: more, r, rfl, by simpa using hnumber, .inr ?_, hcloses⟩
        rcases hfits with rfl | hfits
        · simpa using hroom
        · simpa using hfits
      · simp
  · next hb =>
    have hends : Demand M ⟨.number text, stack⟩ (b :: s) ↔
        M.number text = true ∧ Closes M stack (b :: s) := by
      constructor
      · rintro ⟨more, r, hs, hnumber, -, hcloses⟩
        cases more with
        | nil =>
            simp only [List.nil_append] at hs
            exact ⟨by simpa using hnumber, hs ▸ hcloses⟩
        | cons c more =>
            obtain ⟨rfl, rfl⟩ : b = c ∧ s = more ++ r := by simpa using hs
            exact absurd (hM.number_bytes _ hnumber b (by simp)) hb
      · rintro ⟨hnumber, hcloses⟩
        exact ⟨[], b :: s, rfl, by simpa using hnumber, .inl rfl, hcloses⟩
    rw [hends, closes_step]
    split
    · next hnumber => simp [hnumber]
    · next hnumber => simp [hnumber]

/-- A literal that is being read takes its next byte. -/
theorem literal_step (hM : M.Lawful) (stack : List Bracket) (done : ℕ) (rest : Text) (b : UInt8)
    (s : Text) :
    Demand M ⟨.literal done rest, stack⟩ (b :: s) ↔
      DemandSome M (step M ⟨.literal done rest, stack⟩ b) s := by
  cases rest with
  | nil => simp [Demand, step]
  | cons c rest =>
      simp only [step]
      constructor
      · rintro ⟨r, -, hs, hfits, hcloses⟩
        obtain ⟨rfl, rfl⟩ : b = c ∧ s = rest ++ r := by simpa using hs
        have hroom : M.fitsLiteral stack.length (done + 1) = true :=
          hM.literal_mono _ _ _ (by simp) hfits
        simp only [hroom, and_self, if_true]
        split
        · next hrest => simpa [hrest, Demand] using hcloses
        · next hrest =>
          rw [demandSome_some]
          exact ⟨r, hrest, rfl, by simpa [Nat.add_comm, Nat.add_left_comm] using hfits, hcloses⟩
      · split
        · next h =>
          obtain ⟨rfl, hroom⟩ := h
          split
          · next hrest =>
            subst hrest
            rw [demandSome_some]
            intro hcloses
            exact ⟨s, by simp, rfl, by simpa using hroom, hcloses⟩
          · rw [demandSome_some]
            rintro ⟨r, -, rfl, hfits, hcloses⟩
            exact ⟨r, by simp, rfl,
              by simpa [Nat.add_comm, Nat.add_left_comm] using hfits, hcloses⟩
        · simp

/-- A string that is being read takes one more byte. -/
theorem string_step (stack : List Bracket) (isKey : Bool) (q : S) (b : UInt8) (s : Text) :
    Demand M ⟨.string isKey q, stack⟩ (b :: s) ↔
      DemandSome M (step M ⟨.string isKey q, stack⟩ b) s := by
  simp only [step]
  constructor
  · rintro ⟨r, htail, hrest⟩
    cases htail with
    | close h =>
        simp only [h, demandSome_some]
        cases isKey <;> exact hrest
    | step h htail =>
        simp only [h, demandSome_some]
        exact ⟨r, htail, hrest⟩
  · split
    · simp
    · next h =>
      rw [demandSome_some]
      intro hrest
      refine ⟨s, .close h, ?_⟩
      cases isKey <;> exact hrest
    · next h =>
      rw [demandSome_some]
      rintro ⟨r, htail, hrest⟩
      exact ⟨r, .step h htail, hrest⟩

/-- The literals are demanded by their first byte. -/
theorem demand_literal (hM : M.Lawful) (stack : List Bracket) (rest s : Text) (hrest : rest ≠ []) :
    DemandSome M (stepLiteral M stack rest) s ↔
      ∃ r, s = rest ++ r ∧ M.fitsLiteral stack.length (rest.length + 1) = true ∧
        Closes M stack r := by
  unfold stepLiteral
  constructor
  · split
    · rw [demandSome_some]
      rintro ⟨r, -, rfl, hfits, hcloses⟩
      exact ⟨r, rfl, by simpa [Nat.add_comm] using hfits, hcloses⟩
    · simp
  · rintro ⟨r, rfl, hfits, hcloses⟩
    have hroom : M.fitsLiteral stack.length 1 = true := hM.literal_mono _ _ _ (by simp) hfits
    simp only [hroom, if_true, demandSome_some]
    exact ⟨r, hrest, rfl, by simpa [Nat.add_comm] using hfits, hcloses⟩

/-- An object that has been opened. -/
theorem objectRest_iff (stack : List Bracket) (s : Text) :
    (∃ r, ObjectRest M.rules (stack.length + 1) s r ∧ Closes M stack r) ↔
      Demand M ⟨.keyOrEnd, .object :: stack⟩ s := by
  constructor
  · rintro ⟨r, hrest, hcloses⟩
    refine ⟨stack, rfl, ?_⟩
    cases hrest with
    | empty h => exact .inl ⟨r, h, hcloses⟩
    | members h => exact .inr ((members_iff M stack s).mp ⟨r, h, hcloses⟩)
  · rintro ⟨outer, houter, h⟩
    cases houter
    rcases h with ⟨r, hempty, hcloses⟩ | hkey
    · exact ⟨r, .empty hempty, hcloses⟩
    · obtain ⟨r, hmembers, hcloses⟩ := (members_iff M stack s).mpr hkey
      exact ⟨r, .members hmembers, hcloses⟩

/-- An array that has been opened. -/
theorem arrayRest_iff (stack : List Bracket) (s : Text) :
    (∃ r, ArrayRest M.rules (stack.length + 1) s r ∧ Closes M stack r) ↔
      Demand M ⟨.itemOrEnd, .array :: stack⟩ s := by
  constructor
  · rintro ⟨r, hrest, hcloses⟩
    refine ⟨stack, rfl, ?_⟩
    cases hrest with
    | empty h => exact .inl ⟨r, h, hcloses⟩
    | items h => exact .inr ((items_iff M stack s).mp ⟨r, h, hcloses⟩)
  · rintro ⟨outer, houter, h⟩
    cases houter
    rcases h with ⟨r, hempty, hcloses⟩ | hvalue
    · exact ⟨r, .empty hempty, hcloses⟩
    · obtain ⟨r, hitems, hcloses⟩ := (items_iff M stack s).mpr hvalue
      exact ⟨r, .items hitems, hcloses⟩

/-- No value starts with a blank. -/
theorem stepValue_blank (hM : M.Lawful) {stack : List Bracket} {b : UInt8}
    (hb : isSpace b = true) : stepValue M stack b = none := by
  have hstart : M.numberStart b = false := by
    by_contra h
    have := hM.not_space b (hM.start_byte b (by simpa using h))
    simp [hb] at this
  have hne : b ≠ 0x22 ∧ b ≠ 0x7b ∧ b ≠ 0x5b ∧ b ≠ 0x74 ∧ b ≠ 0x66 ∧ b ≠ 0x6e := by
    refine ⟨?_, ?_, ?_, ?_, ?_, ?_⟩ <;> (rintro rfl; simp [isSpace] at hb)
  simp [stepValue, hstart, hne]

/-- A value is known by its first byte. -/
theorem value_step (hM : M.Lawful) (stack : List Bracket) (b : UInt8) (s : Text) :
    (∃ r, Value M.rules stack.length (b :: s) r ∧ Closes M stack r) ↔
      DemandSome M (stepValue M stack b) s := by
  have hnumber : (∃ num r, b :: s = num ++ r ∧ M.number num = true ∧
      M.fitsNumber stack.length num.length = true ∧ Closes M stack r) ↔
      M.numberStart b = true ∧ M.fitsNumber stack.length 1 = true ∧
        Demand M ⟨.number [b], stack⟩ s := by
    constructor
    · rintro ⟨num, r, hs, hnum, hfits, hcloses⟩
      obtain ⟨c, more, rfl, hstart⟩ := hM.number_start num hnum
      obtain ⟨rfl, rfl⟩ : b = c ∧ s = more ++ r := by simpa using hs
      exact ⟨hstart, hM.fits_mono _ _ _ (by simp) hfits, more, r, rfl, by simpa using hnum,
        .inr (by simpa using hfits), hcloses⟩
    · rintro ⟨-, hroom, more, r, rfl, hnum, hfits, hcloses⟩
      refine ⟨b :: more, r, rfl, by simpa using hnum, ?_, hcloses⟩
      rcases hfits with rfl | hfits
      · simpa using hroom
      · simpa using hfits
  have hvalue : (∃ r, Value M.rules stack.length (b :: s) r ∧ Closes M stack r) ↔
      (b = 0x22 ∧ M.enter stack.length 0x22 = true ∧
        ∃ r, M.rules.stringTail stack.length s r ∧ Closes M stack r) ∨
      (b = 0x7b ∧ M.enter stack.length 0x7b = true ∧
        Demand M ⟨.keyOrEnd, .object :: stack⟩ s) ∨
      (b = 0x5b ∧ M.enter stack.length 0x5b = true ∧
        Demand M ⟨.itemOrEnd, .array :: stack⟩ s) ∨
      (b = 0x74 ∧ DemandSome M (stepLiteral M stack [0x72, 0x75, 0x65]) s) ∨
      (b = 0x66 ∧ DemandSome M (stepLiteral M stack [0x61, 0x6c, 0x73, 0x65]) s) ∨
      (b = 0x6e ∧ DemandSome M (stepLiteral M stack [0x75, 0x6c, 0x6c]) s) ∨
      (M.numberStart b = true ∧ M.fitsNumber stack.length 1 = true ∧
        Demand M ⟨.number [b], stack⟩ s) := by
    rw [← hnumber, ← objectRest_iff, ← arrayRest_iff, demand_literal M hM _ _ _ (by simp),
      demand_literal M hM _ _ _ (by simp), demand_literal M hM _ _ _ (by simp)]
    constructor
    · rintro ⟨r, hvalue, hcloses⟩
      generalize hi : b :: s = i at hvalue
      cases hvalue with
      | string henter h =>
          cases hi
          exact .inl ⟨rfl, henter, r, h, hcloses⟩
      | number h hfits =>
          exact .inr (.inr (.inr (.inr (.inr (.inr ⟨_, r, rfl, h, hfits, hcloses⟩)))))
      | true hfits =>
          obtain ⟨rfl, rfl⟩ : b = 0x74 ∧ s = [0x72, 0x75, 0x65] ++ r := by
            simpa [trueText] using hi
          exact .inr (.inr (.inr (.inl ⟨rfl, r, rfl, hfits, hcloses⟩)))
      | false hfits =>
          obtain ⟨rfl, rfl⟩ : b = 0x66 ∧ s = [0x61, 0x6c, 0x73, 0x65] ++ r := by
            simpa [falseText] using hi
          exact .inr (.inr (.inr (.inr (.inl ⟨rfl, r, rfl, hfits, hcloses⟩))))
      | null hfits =>
          obtain ⟨rfl, rfl⟩ : b = 0x6e ∧ s = [0x75, 0x6c, 0x6c] ++ r := by
            simpa [nullText] using hi
          exact .inr (.inr (.inr (.inr (.inr (.inl ⟨rfl, r, rfl, hfits, hcloses⟩)))))
      | object henter h =>
          cases hi
          exact .inr (.inl ⟨rfl, henter, r, h, hcloses⟩)
      | array henter h =>
          cases hi
          exact .inr (.inr (.inl ⟨rfl, henter, r, h, hcloses⟩))
    · rintro (⟨rfl, henter, r, h, hcloses⟩ | ⟨rfl, henter, r, h, hcloses⟩ |
        ⟨rfl, henter, r, h, hcloses⟩ | ⟨rfl, r, rfl, hfits, hcloses⟩ | ⟨rfl, r, rfl, hfits, hcloses⟩ |
        ⟨rfl, r, rfl, hfits, hcloses⟩ | ⟨num, r, hs, hnum, hfits, hcloses⟩)
      · exact ⟨r, .string henter h, hcloses⟩
      · exact ⟨r, .object henter h, hcloses⟩
      · exact ⟨r, .array henter h, hcloses⟩
      · exact ⟨r, .true hfits, hcloses⟩
      · exact ⟨r, .false hfits, hcloses⟩
      · exact ⟨r, .null hfits, hcloses⟩
      · exact ⟨r, hs ▸ .number hnum hfits, hcloses⟩
  rw [hvalue]
  unfold stepValue
  by_cases hstart : M.numberStart b = true
  · obtain ⟨h₁, h₂, h₃, h₄, h₅, h₆⟩ := hM.not_open b hstart
    simp only [h₁, h₂, h₃, h₄, h₅, h₆, hstart, false_and, false_or, true_and, if_true, if_false]
    split
    · next hroom => simp [hroom]
    · next hroom => simp [hroom]
  · split_ifs <;> simp_all [Demand]

/-- An element that is wanted takes one more byte. -/
theorem demandValue_step (hM : M.Lawful) (stack : List Bracket) (b : UInt8) (s : Text) :
    DemandValue M stack (b :: s) ↔
      if isSpace b then DemandValue M stack s else DemandSome M (stepValue M stack b) s := by
  split
  · next hb =>
    constructor
    · rintro ⟨j, r, hspace, hvalue, hcloses⟩
      cases hspace with
      | skip _ hspace => exact ⟨j, r, hspace, hvalue, hcloses⟩
      | done =>
          obtain ⟨r', hr'⟩ := (value_step M hM stack b s).mp ⟨r, hvalue, hcloses⟩
          exact absurd hr'.1 (by simp [stepValue_blank M hM hb])
    · rintro ⟨j, r, hspace, hvalue, hcloses⟩
      exact ⟨j, r, .skip hb hspace, hvalue, hcloses⟩
  · next hb =>
    rw [← value_step M hM]
    constructor
    · rintro ⟨j, r, hspace, hvalue, hcloses⟩
      obtain rfl := (space_cons_solid (by simpa using hb)).mp hspace
      exact ⟨r, hvalue, hcloses⟩
    · rintro ⟨r, hvalue, hcloses⟩
      exact ⟨_, r, .done, hvalue, hcloses⟩

/-- A colon that is wanted takes one more byte. -/
theorem demandColon_step (stack : List Bracket) (b : UInt8) (s : Text) :
    DemandColon M stack (b :: s) ↔
      (isSpace b = true ∧ DemandColon M stack s) ∨ (b = 0x3a ∧ DemandValue M stack s) := by
  by_cases hb : isSpace b = true
  · have hcolon (l : Text) : Space (b :: s) (0x3a :: l) ↔ Space s (0x3a :: l) :=
      space_cons_blank hb (by decide)
    have hne : b ≠ 0x3a := by
      rintro rfl
      simp [isSpace] at hb
    simp [DemandColon, hcolon, hb, hne]
  · have hcolon {r : Text} : Space (b :: s) r ↔ r = b :: s := space_cons_solid (by simpa using hb)
    simp only [DemandColon, hcolon, hb, List.cons.injEq]
    grind

/-- A key that is wanted takes one more byte. -/
theorem demandKey_step (stack : List Bracket) (b : UInt8) (s : Text) :
    DemandKey M stack (b :: s) ↔
      (isSpace b = true ∧ DemandKey M stack s) ∨
        (b = 0x22 ∧ M.enter stack.length 0x22 = true ∧
          ∃ k, M.rules.keyTail stack.length s k ∧ DemandColon M stack k) := by
  by_cases hb : isSpace b = true
  · have hkey (j : Text) : Space (b :: s) (0x22 :: j) ↔ Space s (0x22 :: j) :=
      space_cons_blank hb (by decide)
    have hne : b ≠ 0x22 := by
      rintro rfl
      simp [isSpace] at hb
    simp [DemandKey, hkey, hb, hne]
  · have hkey {r : Text} : Space (b :: s) r ↔ r = b :: s := space_cons_solid (by simpa using hb)
    simp only [DemandKey, hkey, hb, List.cons.injEq]
    grind

/-- The end of an empty container takes one more byte. -/
theorem empty_step (outer : List Bracket) (close b : UInt8) (hclose : isSpace close = false)
    (s : Text) :
    (∃ r, Space (b :: s) (close :: r) ∧ Closes M outer r) ↔
      (isSpace b = true ∧ ∃ r, Space s (close :: r) ∧ Closes M outer r) ∨
        (b = close ∧ Closes M outer s) := by
  by_cases hb : isSpace b = true
  · have hspace (r : Text) : Space (b :: s) (close :: r) ↔ Space s (close :: r) :=
      space_cons_blank hb hclose
    have hne : b ≠ close := by
      rintro rfl
      simp [hb] at hclose
    simp [hspace, hb, hne]
  · have hspace {r : Text} : Space (b :: s) r ↔ r = b :: s := space_cons_solid (by simpa using hb)
    simp only [hspace, hb, List.cons.injEq]
    grind

/-- No value starts with a closing bracket. -/
theorem stepValue_bracket (hM : M.Lawful) (stack : List Bracket) :
    stepValue M stack 0x5d = none := by
  have hstart : M.numberStart 0x5d = false := by
    by_contra h
    exact (hM.not_close 0x5d (hM.start_byte _ (by simpa using h))).2.2 rfl
  simp [stepValue, hstart]

/-- An opened array takes one more byte. -/
theorem itemOrEnd_step (hM : M.Lawful) (stack : List Bracket) (b : UInt8) (s : Text) :
    Demand M ⟨.itemOrEnd, stack⟩ (b :: s) ↔ DemandSome M (step M ⟨.itemOrEnd, stack⟩ b) s := by
  rcases stack with _ | ⟨_ | _, outer⟩
  · simp [Demand, step]
  · simp [Demand, step]
  · have hdemand (t : Text) : Demand M ⟨.itemOrEnd, .array :: outer⟩ t ↔
        (∃ r, Space t (0x5d :: r) ∧ Closes M outer r) ∨ DemandValue M (.array :: outer) t := by
      simp [Demand]
    rw [hdemand, empty_step M outer 0x5d b (by decide), demandValue_step M hM]
    simp only [step]
    split
    · next hb =>
      have hne : b ≠ 0x5d := by
        rintro rfl
        simp [isSpace] at hb
      simp [hdemand, hb, hne]
    · next hb =>
      split
      · next hclose => simp [hclose, stepValue_bracket M hM, isSpace, Demand]
      · next hclose => simp [hb, hclose]

/-- A key or a closing brace takes one more byte. -/
theorem keyOrEnd_step (stack : List Bracket) (b : UInt8) (s : Text) :
    Demand M ⟨.keyOrEnd, stack⟩ (b :: s) ↔ DemandSome M (step M ⟨.keyOrEnd, stack⟩ b) s := by
  rcases stack with _ | ⟨_ | _, outer⟩
  · simp [Demand, step]
  · have hdemand (t : Text) : Demand M ⟨.keyOrEnd, .object :: outer⟩ t ↔
        (∃ r, Space t (0x7d :: r) ∧ Closes M outer r) ∨ DemandKey M (.object :: outer) t := by
      simp [Demand]
    rw [hdemand, empty_step M outer 0x7d b (by decide), demandKey_step M]
    simp only [step]
    split
    · next hb =>
      have hne : b ≠ 0x7d ∧ b ≠ 0x22 := by
        constructor <;> (rintro rfl; simp [isSpace] at hb)
      simp [hdemand, hb, hne]
    · next hb =>
      split
      · next hclose => simp [hclose, isSpace, Demand]
      · next hclose =>
        simp only [hb, hclose, stepKey]
        split
        · next hquote =>
          obtain ⟨rfl, henter⟩ := hquote
          simp_all [Demand]
        · next hquote => grind [demandSome_none]
  · simp [Demand, step]

/-- A key takes one more byte. -/
theorem key_step (stack : List Bracket) (b : UInt8) (s : Text) :
    Demand M ⟨.key, stack⟩ (b :: s) ↔ DemandSome M (step M ⟨.key, stack⟩ b) s := by
  rcases stack with _ | ⟨_ | _, outer⟩
  · simp [Demand, step]
  · have hdemand (t : Text) : Demand M ⟨.key, .object :: outer⟩ t ↔
        DemandKey M (.object :: outer) t := by
      simp [Demand]
    rw [hdemand, demandKey_step M]
    simp only [step, stepKey]
    split
    · next hb =>
      have hne : b ≠ 0x22 := by
        rintro rfl
        simp [isSpace] at hb
      simp [hdemand, hb, hne]
    · next hb =>
      split
      · next hquote =>
        obtain ⟨rfl, henter⟩ := hquote
        simp_all [Demand]
      · next hquote => grind [demandSome_none]
  · simp [Demand, step]

/-- A colon takes one more byte. -/
theorem colon_step (stack : List Bracket) (b : UInt8) (s : Text) :
    Demand M ⟨.colon, stack⟩ (b :: s) ↔ DemandSome M (step M ⟨.colon, stack⟩ b) s := by
  rcases stack with _ | ⟨_ | _, outer⟩
  · simp [Demand, step]
  · have hdemand (t : Text) : Demand M ⟨.colon, .object :: outer⟩ t ↔
        DemandColon M (.object :: outer) t := by
      simp [Demand]
    rw [hdemand, demandColon_step M]
    simp only [step]
    split
    · next hb =>
      have hne : b ≠ 0x3a := by
        rintro rfl
        simp [isSpace] at hb
      simp [hdemand, hb, hne]
    · next hb =>
      split
      · next hcolon => simp [hcolon, isSpace, Demand]
      · next hcolon => simp [hb, hcolon]
  · simp [Demand, step]

/-! ## The machine reads the grammar -/

/-- One step of the machine is one byte of what its state demands. -/
theorem demand_step (hM : M.Lawful) (st : State S) (b : UInt8) (s : Text) :
    Demand M st (b :: s) ↔ DemandSome M (step M st b) s := by
  obtain ⟨mode, stack⟩ := st
  cases mode with
  | value =>
      simp only [Demand, step, demandValue_step M hM]
      split <;> simp [Demand]
  | itemOrEnd => exact itemOrEnd_step M hM stack b s
  | keyOrEnd => exact keyOrEnd_step M stack b s
  | key => exact key_step M stack b s
  | colon => exact colon_step M stack b s
  | after => exact closes_step M b stack s
  | string isKey q => exact string_step M stack isKey q b s
  | number text => exact number_step M hM stack text b s
  | literal done rest => exact literal_step M hM stack done rest b s

/-- Nothing is left to read behind a value only when no container is open. -/
theorem closes_nil (stack : List Bracket) : Closes M stack [] ↔ stack = [] := by
  rcases stack with _ | ⟨_ | _, outer⟩
  · simp [Closes, space_nil_left]
  · simp [Closes, space_nil_left]
  · simp [Closes, space_nil_left]

/-- Every value is at least one byte long. -/
theorem not_demandValue_nil (hM : M.Lawful) (stack : List Bracket) : ¬ DemandValue M stack [] := by
  rintro ⟨j, r, hspace, hvalue, -⟩
  obtain rfl := space_nil_left.mp hspace
  generalize hi : ([] : Text) = i at hvalue
  cases hvalue with
  | number h _ =>
      obtain ⟨b, t, rfl, -⟩ := hM.number_start _ h
      simp at hi
  | _ => simp [trueText, falseText, nullText] at hi

/-- A text may end exactly in the accepting states. -/
theorem demand_nil (hM : M.Lawful) (st : State S) : Demand M st [] ↔ accepting M st = true := by
  obtain ⟨mode, stack⟩ := st
  have hcolon (t : List Bracket) : ¬ DemandColon M t [] := by
    rintro ⟨l, hl, -⟩
    simp [space_nil_left] at hl
  have hkey (t : List Bracket) : ¬ DemandKey M t [] := by
    rintro ⟨j, k, hj, -⟩
    simp [space_nil_left] at hj
  cases mode with
  | value => simpa [Demand, accepting] using not_demandValue_nil M hM stack
  | itemOrEnd => simp [Demand, accepting, space_nil_left, not_demandValue_nil M hM]
  | keyOrEnd => simp [Demand, accepting, space_nil_left, hkey]
  | key => simp [Demand, accepting, hkey]
  | colon => simp [Demand, accepting, hcolon]
  | after => simp [Demand, accepting, closes_nil]
  | string isKey q =>
      constructor
      · rintro ⟨r, htail, -⟩
        cases htail
      · simp [accepting]
  | number text =>
      simp only [accepting, Bool.and_eq_true, List.isEmpty_iff]
      constructor
      · rintro ⟨more, r, hs, hnumber, -, hcloses⟩
        obtain ⟨rfl, rfl⟩ : more = [] ∧ r = [] := by simpa using hs.symm
        exact ⟨by simpa using hnumber, (closes_nil M stack).mp hcloses⟩
      · rintro ⟨hnumber, hstack⟩
        exact ⟨[], [], rfl, by simpa using hnumber, .inl rfl, (closes_nil M stack).mpr hstack⟩
  | literal done rest =>
      constructor
      · rintro ⟨r, hrest, hs, -⟩
        exact absurd (by simpa using hs.symm) (fun h : rest = [] ∧ r = [] => hrest h.1)
      · simp [accepting]

/-- The machine accepts a text exactly when the text is what the state demands. -/
theorem demand_iff_run (hM : M.Lawful) (st : State S) (s : Text) :
    Demand M st s ↔ (run M (some st) s).any (accepting M) = true := by
  induction s generalizing st with
  | nil => simp [demand_nil M hM]
  | cons b s ih =>
      rw [demand_step M hM, run_cons_some]
      cases hstep : step M st b with
      | none => simp
      | some st' => simpa [hstep] using ih st'

/-- The machine accepts the JSON texts of its rules. -/
theorem accepts_iff_document (hM : M.Lawful) (s : Text) :
    accepts M s = true ↔ Document M.rules s := by
  have hdemand : Demand M initial s ↔ Document M.rules s := by
    constructor
    · rintro ⟨j, r, hspace, hvalue, hcloses⟩
      exact ⟨hspace, hvalue, hcloses⟩
    · rintro ⟨hspace, hvalue, hcloses⟩
      exact ⟨_, _, hspace, hvalue, hcloses⟩
  rw [← hdemand, demand_iff_run M hM]
  rfl

/-- A run of number bytes goes into the number that is being read. -/
theorem run_number (hM : M.Lawful) (stack : List Bracket) (text ds : Text) (hne : ds ≠ [])
    (hds : ∀ b ∈ ds, M.numberByte b = true) :
    run M (some ⟨.number text, stack⟩) ds =
      if M.fitsNumber stack.length (text.length + ds.length) then some ⟨.number (text ++ ds), stack⟩
      else none := by
  induction ds generalizing text with
  | nil => exact absurd rfl hne
  | cons b ds ih =>
      have hb : M.numberByte b = true := hds b (by simp)
      simp only [run_cons_some, step, hb, if_true]
      cases ds with
      | nil => simp
      | cons c ds =>
          split
          · next hfits =>
            rw [ih (text ++ [b]) (by simp) fun d hd => hds d (by simp [hd])]
            simp [Nat.add_assoc, Nat.add_comm]
          · next hfits =>
            rw [run_none, if_neg]
            intro h
            exact hfits (hM.fits_mono _ _ _ (by simp) h)

/-! ## Reading ahead -/

/-- A reader that has used some bytes is in a state: the state of the machine, or, when
the byte ahead shows that a number is complete, the state behind the number. -/
inductive Reaches : State S → Text → Text → State S → Prop where
  | run {st st' : State S} {used rest : Text} (h : run M (some st) used = some st') :
      Reaches st used rest st'
  | early {st : State S} {used rest text : Text} {b : UInt8} {stack : List Bracket}
      (h : run M (some st) used = some ⟨.number text, stack⟩) (hnumber : M.number text = true)
      (hb : M.numberByte b = false) : Reaches st used (b :: rest) ⟨.after, stack⟩

variable {M} in
/-- What is ahead is read as from the state reached. -/
theorem Reaches.run_prefix {st st' : State S} {used rest t : Text}
    (h : Reaches M st used rest st') (hpre : t <+: rest) (ht : t ≠ [] ∨ rest = []) :
    Json.run M (some st) (used ++ t) = Json.run M (some st') t := by
  rw [Json.run_append]
  cases h with
  | run h => rw [h]
  | early h hnumber hb =>
      have hne : t ≠ [] := by simpa using ht
      obtain ⟨c, t, rfl⟩ := List.exists_cons_of_ne_nil hne
      obtain ⟨rfl, -⟩ := List.cons_prefix_cons.mp hpre
      simp [h, step, hnumber, hb]

variable {M} in
theorem Reaches.run_append {st st' : State S} {used rest : Text} (h : Reaches M st used rest st') :
    Json.run M (some st) (used ++ rest) = Json.run M (some st') rest :=
  h.run_prefix (List.prefix_refl _) (by tauto)

/-! ## Comparing machines -/

/-- Whatever `M` and `N` both read, `K` reads in the same way. -/
structure Machine.Meets (M N K : Machine S) : Prop where
  start : ∀ k d, (M.lexer k d).start = (K.lexer k d).start ∧
    (N.lexer k d).start = (K.lexer k d).start
  next : ∀ k d q b o o', (M.lexer k d).next q b = some o → (N.lexer k d).next q b = some o' →
    o = o' ∧ (K.lexer k d).next q b = some o
  numberStart : M.numberStart = K.numberStart ∧ N.numberStart = K.numberStart
  numberByte : M.numberByte = K.numberByte ∧ N.numberByte = K.numberByte
  number : M.number = K.number ∧ N.number = K.number
  fitsNumber : ∀ d n, M.fitsNumber d n = true → N.fitsNumber d n = true → K.fitsNumber d n = true
  fitsLiteral : ∀ d n, M.fitsLiteral d n = true → N.fitsLiteral d n = true →
    K.fitsLiteral d n = true
  enter : ∀ d b, M.enter d b = true → N.enter d b = true → K.enter d b = true

theorem guard_meets {p p' k : Prop} [Decidable p] [Decidable p'] [Decidable k] {o : Option S}
    {q q' : S} (hM : (if p then o else none) = some q) (hN : (if p' then o else none) = some q')
    (h : p → p' → k) : q = q' ∧ (if k then o else none) = some q := by
  rw [Option.ite_none_right_eq_some] at hM hN
  exact ⟨Option.some.inj (hM.2.symm.trans hN.2), by rw [if_pos (h hM.1 hN.1), hM.2]⟩

section

variable {M} {N K : Machine S} (h : M.Meets N K)
include h

theorem Machine.Meets.stepLiteral {stack : List Bracket} {rest : Text} {q q' : State S}
    (hM : stepLiteral M stack rest = some q) (hN : Json.stepLiteral N stack rest = some q') :
    q = q' ∧ Json.stepLiteral K stack rest = some q :=
  guard_meets hM hN (h.fitsLiteral _ _)

theorem Machine.Meets.stepValue {stack : List Bracket} {b : UInt8} {q q' : State S}
    (hM : stepValue M stack b = some q) (hN : Json.stepValue N stack b = some q') :
    q = q' ∧ Json.stepValue K stack b = some q := by
  unfold Json.stepValue at hM hN ⊢
  rw [(h.start false stack.length).1, h.numberStart.1] at hM
  rw [(h.start false stack.length).2, h.numberStart.2] at hN
  by_cases hquote : b = 0x22
  · rw [if_pos hquote] at hM hN ⊢
    exact guard_meets hM hN (h.enter _ _)
  rw [if_neg hquote] at hM hN ⊢
  by_cases hbrace : b = 0x7b
  · rw [if_pos hbrace] at hM hN ⊢
    exact guard_meets hM hN (h.enter _ _)
  rw [if_neg hbrace] at hM hN ⊢
  by_cases hbracket : b = 0x5b
  · rw [if_pos hbracket] at hM hN ⊢
    exact guard_meets hM hN (h.enter _ _)
  rw [if_neg hbracket] at hM hN ⊢
  by_cases hnumber : K.numberStart b = true
  · rw [if_pos hnumber] at hM hN ⊢
    split
    · next ht =>
      rw [if_pos ht] at hM hN
      exact h.stepLiteral hM hN
    split
    · next ht hf =>
      rw [if_neg ht, if_pos hf] at hM hN
      exact h.stepLiteral hM hN
    split
    · next ht hf hn =>
      rw [if_neg ht, if_neg hf, if_pos hn] at hM hN
      exact h.stepLiteral hM hN
    · next ht hf hn =>
      rw [if_neg ht, if_neg hf, if_neg hn] at hM hN
      exact guard_meets hM hN (h.fitsNumber _ _)
  · rw [if_neg hnumber] at hM hN ⊢
    split_ifs at hM hN ⊢
    all_goals exact h.stepLiteral hM hN

theorem Machine.Meets.stepKey {stack : List Bracket} {b : UInt8} {q q' : State S}
    (hM : stepKey M stack b = some q) (hN : Json.stepKey N stack b = some q') :
    q = q' ∧ Json.stepKey K stack b = some q := by
  unfold Json.stepKey at hM hN ⊢
  rw [(h.start true stack.length).1] at hM
  rw [(h.start true stack.length).2] at hN
  exact guard_meets hM hN fun hM hN => ⟨hM.1, h.enter _ _ hM.2 hN.2⟩

/-- One byte that both machines read. -/
theorem Machine.Meets.step {st q q' : State S} {b : UInt8} (hM : step M st b = some q)
    (hN : Json.step N st b = some q') : q = q' ∧ Json.step K st b = some q := by
  obtain ⟨mode, stack⟩ := st
  cases mode with
  | value =>
      simp only [Json.step] at hM hN ⊢
      split_ifs at hM hN ⊢
      · exact ⟨Option.some.inj (hM.symm.trans hN), hM⟩
      · exact h.stepValue hM hN
  | itemOrEnd =>
      simp only [Json.step] at hM hN ⊢
      rcases stack with _ | ⟨_ | _, outer⟩
      · cases hM
      · cases hM
      · dsimp only at hM hN ⊢
        split_ifs at hM hN ⊢
        · exact ⟨Option.some.inj (hM.symm.trans hN), hM⟩
        · exact ⟨Option.some.inj (hM.symm.trans hN), hM⟩
        · exact h.stepValue hM hN
  | keyOrEnd =>
      simp only [Json.step] at hM hN ⊢
      rcases stack with _ | ⟨_ | _, outer⟩
      · cases hM
      · dsimp only at hM hN ⊢
        split_ifs at hM hN ⊢
        · exact ⟨Option.some.inj (hM.symm.trans hN), hM⟩
        · exact ⟨Option.some.inj (hM.symm.trans hN), hM⟩
        · exact h.stepKey hM hN
      · cases hM
  | key =>
      simp only [Json.step] at hM hN ⊢
      rcases stack with _ | ⟨_ | _, outer⟩
      · cases hM
      · dsimp only at hM hN ⊢
        split_ifs at hM hN ⊢
        · exact ⟨Option.some.inj (hM.symm.trans hN), hM⟩
        · exact h.stepKey hM hN
      · cases hM
  | colon =>
      exact ⟨Option.some.inj (hM.symm.trans hN), hM⟩
  | after =>
      exact ⟨Option.some.inj (hM.symm.trans hN), hM⟩
  | string isKey s =>
      simp only [Json.step] at hM hN ⊢
      cases hnext : (M.lexer isKey stack.length).next s b with
      | none => simp [hnext] at hM
      | some o =>
          cases hnext' : (N.lexer isKey stack.length).next s b with
          | none => simp [hnext'] at hN
          | some o' =>
              obtain ⟨rfl, hK⟩ := h.next _ _ _ _ _ _ hnext hnext'
              rw [hnext] at hM
              rw [hnext'] at hN
              rw [hK]
              exact ⟨Option.some.inj (hM.symm.trans hN), hM⟩
  | number text =>
      simp only [Json.step, h.numberByte.1, h.number.1] at hM
      simp only [Json.step, h.numberByte.2, h.number.2] at hN
      simp only [Json.step]
      by_cases hbyte : K.numberByte b = true
      · rw [if_pos hbyte] at hM hN ⊢
        exact guard_meets hM hN (h.fitsNumber _ _)
      · rw [if_neg hbyte] at hM hN ⊢
        exact ⟨Option.some.inj (hM.symm.trans hN), hM⟩
  | literal done rest =>
      simp only [Json.step] at hM hN ⊢
      cases rest with
      | nil => cases hM
      | cons c rest =>
          exact guard_meets hM hN fun hM hN => ⟨hM.1, h.fitsLiteral _ _ hM.2 hN.2⟩

theorem Machine.Meets.run {st q q' : State S} {s : Text} (hM : run M (some st) s = some q)
    (hN : Json.run N (some st) s = some q') : q = q' ∧ Json.run K (some st) s = some q := by
  induction s generalizing st with
  | nil =>
      rw [run_nil] at hM hN ⊢
      exact ⟨Option.some.inj (hM.symm.trans hN), hM⟩
  | cons b s ih =>
      rw [run_cons_some] at hM hN ⊢
      cases hstep : Json.step M st b with
      | none => simp [hstep] at hM
      | some st₁ =>
          cases hstep' : Json.step N st b with
          | none => simp [hstep'] at hN
          | some st₂ =>
              obtain ⟨rfl, hK⟩ := h.step hstep hstep'
              rw [hstep] at hM
              rw [hstep'] at hN
              rw [hK]
              exact ih hM hN

/-- A machine accepts what two machines that it meets accept. -/
theorem Machine.Meets.accepts {s : Text} (hM : Json.accepts M s = true)
    (hN : Json.accepts N s = true) : Json.accepts K s = true := by
  unfold Json.accepts at hM hN ⊢
  obtain ⟨q, hq, hacc⟩ := (Option.any_eq_true _ _).mp hM
  obtain ⟨q', hq', -⟩ := (Option.any_eq_true _ _).mp hN
  obtain ⟨-, hK⟩ := h.run hq hq'
  rw [hK]
  simpa [accepting, h.number.1] using hacc

end

end Json
