import Lonejson.Machine

/-!
# What a text says

A machine with an output: what it says at a bracket, and at the end of a string, of a
number and of a literal. The reading of a text is what it says from first to last byte,
when the machine accepts the text. Between the tokens a reading unfolds token by token.
-/

namespace Json

/-- What is said at the tokens of a text. A string is given by the state of its lexer at
the closing quote. -/
structure Output (S ω : Type) where
  opening : Bracket → List ω
  closing : Bracket → List ω
  string : Bool → S → List ω
  number : Text → List ω
  literal : Text → List ω

/-- Nothing is said. -/
def Output.silent (S ω : Type) : Output S ω := ⟨fun _ => [], fun _ => [], fun _ _ => [],
  fun _ => [], fun _ => []⟩

def Bracket.opening : Bracket → UInt8
  | .object => 0x7b
  | .array => 0x5b

def Bracket.closing : Bracket → UInt8
  | .object => 0x7d
  | .array => 0x5d

/-- The places between the tokens of a text. -/
inductive Place where
  | value
  | itemOrEnd
  | keyOrEnd
  | key
  | colon
  | after
  deriving DecidableEq, Repr

def Place.mode {S : Type} : Place → Mode S
  | .value => .value
  | .itemOrEnd => .itemOrEnd
  | .keyOrEnd => .keyOrEnd
  | .key => .key
  | .colon => .colon
  | .after => .after

/-- The place behind an opening bracket. -/
def Bracket.inside : Bracket → Place
  | .object => .keyOrEnd
  | .array => .itemOrEnd

/-- The place of a member or an item. -/
def Bracket.next : Bracket → Place
  | .object => .key
  | .array => .value

/-- The innermost container that a place is in. -/
def Place.Fits : Place → List Bracket → Prop
  | .value, _ | .after, _ => True
  | .itemOrEnd, stack => ∃ outer, stack = .array :: outer
  | .keyOrEnd, stack | .key, stack | .colon, stack => ∃ outer, stack = .object :: outer

theorem Bracket.inside_fits (c : Bracket) (stack : List Bracket) : c.inside.Fits (c :: stack) := by
  cases c <;> exact ⟨stack, rfl⟩

theorem Bracket.next_fits (c : Bracket) (stack : List Bracket) : c.next.Fits (c :: stack) := by
  cases c with
  | object => exact ⟨stack, rfl⟩
  | array => trivial

/-- The literal whose last byte is read. -/
def endedLiteral (done : ℕ) (b : UInt8) : Text :=
  if b = 0x6c then nullText else if done = 3 then trueText else falseText

variable {S ω : Type} (M : Machine S) (O : Output S ω)

/-- What is said at the byte after a value. -/
def saidAfter (stack : List Bracket) (b : UInt8) : List ω :=
  match stack with
  | [] => []
  | c :: _ => if b = c.closing then O.closing c else []

/-- What is said at the first byte of a value. -/
def saidValue (b : UInt8) : List ω :=
  if b = 0x7b then O.opening .object else if b = 0x5b then O.opening .array else []

/-- What is said at one byte. -/
def said (st : State S) (b : UInt8) : List ω :=
  match st.mode with
  | .value => saidValue O b
  | .itemOrEnd => if b = 0x5d then O.closing .array else saidValue O b
  | .keyOrEnd => if b = 0x7d then O.closing .object else []
  | .key | .colon => []
  | .after => saidAfter O st.stack b
  | .string isKey s =>
    match (M.lexer isKey st.stack.length).next s b with
    | some none => O.string isKey s
    | _ => []
  | .number text => if M.numberByte b then [] else O.number text ++ saidAfter O st.stack b
  | .literal done rest => if rest.length = 1 then O.literal (endedLiteral done b) else []

/-- What is said at the end of the text. -/
def saidLast (st : State S) : List ω :=
  match st.mode with
  | .number text => O.number text
  | _ => []

/-- One reading behind another. -/
def andThen (w x : Option (List ω)) : Option (List ω) := w.bind fun w => x.map (w ++ ·)

/-- What a state says of the text that is left. -/
def reading : State S → Text → Option (List ω)
  | st, [] => if accepting M st then some (saidLast O st) else none
  | st, b :: i => (step M st b).bind fun st' => andThen (some (said M O st b)) (reading st' i)

/-- What is said when a check succeeds. -/
def checked (ok : Bool) (w : List ω) : Option (List ω) := if ok then some w else none

@[simp] theorem andThen_none (x : Option (List ω)) : andThen none x = none := rfl

@[simp] theorem andThen_none_right (w : Option (List ω)) : andThen w none = none := by
  cases w <;> rfl

@[simp] theorem andThen_nil (x : Option (List ω)) : andThen (some []) x = x := by
  cases x <;> rfl

theorem andThen_assoc (w x y : Option (List ω)) :
    andThen (andThen w x) y = andThen w (andThen x y) := by
  cases w <;> cases x <;> cases y <;> simp [andThen]

theorem andThen_some (w x : List ω) (y : Option (List ω)) :
    andThen (some w) (andThen (some x) y) = andThen (some (w ++ x)) y := by
  cases y <;> simp [andThen]

@[simp] theorem checked_true (w : List ω) : checked true w = some w := rfl

@[simp] theorem checked_false (w : List ω) : checked false w = none := rfl

/-- A text is accepted when there is a reading of it. -/
theorem reading_isSome (st : State S) (s : Text) :
    (reading M O st s).isSome = (run M (some st) s).any (accepting M) := by
  induction s generalizing st with
  | nil => cases h : accepting M st <;> simp [reading, h]
  | cons b s ih =>
      rw [run_cons_some, reading]
      cases hstep : step M st b with
      | none => simp
      | some st' =>
          rw [Option.bind_some, ← ih]
          cases reading M O st' s <;> rfl

theorem accepts_iff_reading (s : Text) :
    accepts M s = true ↔ ∃ w, reading M O initial s = some w := by
  rw [accepts, ← reading_isSome M O]
  exact Option.isSome_iff_exists

/-! ## Token by token -/

section

variable {M} {O}

theorem reading_step {st st' : State S} {b : UInt8} (hstep : step M st b = some st') (i : Text) :
    reading M O st (b :: i) = andThen (some (said M O st b)) (reading M O st' i) := by
  rw [reading, hstep, Option.bind_some]

theorem reading_reject {st : State S} {b : UInt8} (hstep : step M st b = none) (i : Text) :
    reading M O st (b :: i) = none := by
  rw [reading, hstep, Option.bind_none]

/-- A blank between two tokens says nothing. -/
theorem reading_blank {p : Place} {stack : List Bracket} (hp : p.Fits stack) {b : UInt8}
    (hb : isSpace b = true) (i : Text) :
    reading M O ⟨p.mode, stack⟩ (b :: i) = reading M O ⟨p.mode, stack⟩ i := by
  have hne : b ≠ 0x7b ∧ b ≠ 0x5b ∧ b ≠ 0x7d ∧ b ≠ 0x5d := by
    refine ⟨?_, ?_, ?_, ?_⟩ <;> (rintro rfl; simp [isSpace] at hb)
  have hstep : step M ⟨p.mode, stack⟩ b = some ⟨p.mode, stack⟩ := by
    cases p with
    | value => simp [step, Place.mode, hb]
    | after => simp [step, Place.mode, stepAfter, hb]
    | itemOrEnd | keyOrEnd | key | colon =>
        obtain ⟨outer, rfl⟩ := hp
        simp [step, Place.mode, hb]
  have hsaid : said M O ⟨p.mode, stack⟩ b = [] := by
    cases p with
    | after =>
        rcases stack with _ | ⟨_ | _, stack⟩ <;>
          simp [said, Place.mode, saidAfter, Bracket.closing, hne]
    | _ => simp [said, Place.mode, saidValue, hne]
  rw [reading_step hstep, hsaid, andThen_nil]

/-- An opening bracket. -/
theorem reading_opening (c : Bracket) (stack : List Bracket) (i : Text) :
    reading M O ⟨.value, stack⟩ (c.opening :: i) =
      andThen (checked (M.enter stack.length c.opening) (O.opening c))
        (reading M O ⟨c.inside.mode, c :: stack⟩ i) := by
  cases henter : M.enter stack.length c.opening with
  | false =>
      refine reading_reject ?_ i
      cases c <;> simp_all [step, stepValue, isSpace, Bracket.opening]
  | true =>
      have hstep : step M ⟨.value, stack⟩ c.opening = some ⟨c.inside.mode, c :: stack⟩ := by
        cases c <;>
          simp_all [step, stepValue, isSpace, Bracket.opening, Bracket.inside, Place.mode]
      rw [reading_step hstep]
      cases c <;> rfl

/-- The bracket that closes an empty container, or one behind a value. -/
theorem reading_closing (c : Bracket) (first : Bool) (stack : List Bracket) (i : Text) :
    reading M O ⟨(if first then c.inside else .after).mode, c :: stack⟩ (c.closing :: i) =
      andThen (some (O.closing c)) (reading M O ⟨.after, stack⟩ i) := by
  cases first <;> cases c <;>
    simp [reading, step, stepAfter, said, saidAfter, isSpace, Place.mode, Bracket.inside,
      Bracket.closing]

/-- The first member or item of a container. -/
theorem reading_first (c : Bracket) (stack : List Bracket) {b : UInt8} (hb : isSpace b = false)
    (hclose : b ≠ c.closing) (i : Text) :
    reading M O ⟨c.inside.mode, c :: stack⟩ (b :: i) =
      reading M O ⟨c.next.mode, c :: stack⟩ (b :: i) := by
  cases c <;>
    simp_all [reading, step, said, Place.mode, Bracket.inside, Bracket.next, Bracket.closing]

/-- A comma. -/
theorem reading_comma (c : Bracket) (stack : List Bracket) (i : Text) :
    reading M O ⟨.after, c :: stack⟩ (0x2c :: i) = reading M O ⟨c.next.mode, c :: stack⟩ i := by
  cases c <;>
    simp [reading, step, stepAfter, said, saidAfter, isSpace, Place.mode, Bracket.next,
      Bracket.closing]

/-- A colon. -/
theorem reading_colon (stack : List Bracket) (i : Text) :
    reading M O ⟨.colon, .object :: stack⟩ (0x3a :: i) =
      reading M O ⟨.value, .object :: stack⟩ i := by
  simp [reading, step, said, isSpace]

/-- The quote of a string. -/
theorem reading_quote (stack : List Bracket) (i : Text) :
    reading M O ⟨.value, stack⟩ (0x22 :: i) = andThen (checked (M.enter stack.length 0x22) [])
      (reading M O ⟨.string false (M.lexer false stack.length).start, stack⟩ i) := by
  cases henter : M.enter stack.length 0x22 <;>
    simp [reading, step, stepValue, said, saidValue, isSpace, henter]

/-- The quote of a key. -/
theorem reading_keyQuote (stack : List Bracket) (i : Text) :
    reading M O ⟨.key, .object :: stack⟩ (0x22 :: i) =
      andThen (checked (M.enter (stack.length + 1) 0x22) [])
        (reading M O ⟨.string true (M.lexer true (stack.length + 1)).start, .object :: stack⟩ i) := by
  cases henter : M.enter (stack.length + 1) 0x22 <;>
    simp [reading, step, stepKey, said, isSpace, henter]

/-- A string up to its closing quote. -/
theorem reading_string {isKey : Bool} {stack : List Bracket} {s t : S} {i r : Text}
    (h : (M.lexer isKey stack.length).Ends s i t r) :
    reading M O ⟨.string isKey s, stack⟩ i =
      andThen (some (O.string isKey t)) (reading M O ⟨afterString isKey, stack⟩ r) := by
  induction h with
  | close h => simp [reading, step, said, h]
  | step h _ ih => simp [reading, step, said, h, ih]

/-- A string that does not end. -/
theorem reading_noString {isKey : Bool} {stack : List Bracket} {s : S} {i : Text}
    (h : ∀ r, ¬ (M.lexer isKey stack.length).Tail s i r) :
    reading M O ⟨.string isKey s, stack⟩ i = none := by
  induction i generalizing s with
  | nil => rfl
  | cons b i ih =>
      rw [reading]
      cases hnext : (M.lexer isKey stack.length).next s b with
      | none => simp [step, hnext]
      | some o =>
          cases o with
          | none => exact (h i (.close hnext)).elim
          | some s' =>
              have hrest := ih fun r hr => h r (.step hnext hr)
              simp [step, hnext, hrest]

/-- A text at whose end a number is complete. -/
def EndsNumber (M : Machine S) (r : Text) : Prop := ∀ b ∈ r.head?, M.numberByte b = false

/-- The end of a number is like the end of any value. -/
theorem reading_numberEnd {stack : List Bracket} {text : Text} {r : Text} (hr : EndsNumber M r) :
    reading M O ⟨.number text, stack⟩ r =
      andThen (checked (M.number text) (O.number text)) (reading M O ⟨.after, stack⟩ r) := by
  cases r with
  | nil =>
      cases hnumber : M.number text <;> cases stack <;>
        simp [reading, accepting, saidLast, hnumber, andThen]
  | cons b r =>
      have hb : M.numberByte b = false := hr b (by simp)
      cases hnumber : M.number text with
      | false => simp [reading, step, hb, hnumber]
      | true =>
          simp only [reading, step, said, hb, hnumber, Bool.false_eq_true, if_false, if_true,
            checked_true]
          cases stepAfter (S := S) stack b with
          | none => simp
          | some st' => simp [andThen_some]

theorem reading_numberMore (hmono : ∀ d n m, n ≤ m → M.fitsNumber d m = true → M.fitsNumber d n = true)
    {stack : List Bracket} {text more : Text} (hmore : ∀ b ∈ more, M.numberByte b = true)
    (htext : M.fitsNumber stack.length text.length = true) (r : Text) :
    reading M O ⟨.number text, stack⟩ (more ++ r) =
      andThen (checked (M.fitsNumber stack.length (text ++ more).length) [])
        (reading M O ⟨.number (text ++ more), stack⟩ r) := by
  induction more generalizing text with
  | nil => simp [htext]
  | cons b more ih =>
      have hb : M.numberByte b = true := hmore b (by simp)
      cases hroom : M.fitsNumber stack.length (text.length + 1) with
      | false =>
          have hlong : M.fitsNumber stack.length (text ++ b :: more).length = false := by
            by_contra h
            have := hmono _ (text.length + 1) (text ++ b :: more).length (by simp) (by simpa using h)
            simp [hroom] at this
          rw [hlong, List.cons_append]
          exact reading_reject (by simp [step, hb, hroom]) _
      | true =>
          have hstep : step M ⟨.number text, stack⟩ b = some ⟨.number (text ++ [b]), stack⟩ := by
            simp [step, hb, hroom]
          rw [List.cons_append, reading_step hstep,
            ih (fun c hc => hmore c (by simp [hc])) (by simpa using hroom)]
          simp [said, hb]

/-- A number with a byte behind it that does not belong to it. -/
theorem reading_number (hM : M.Lawful) {stack : List Bracket} {b : UInt8} {more r : Text}
    (hstart : M.numberStart b = true) (hmore : ∀ c ∈ more, M.numberByte c = true)
    (hr : EndsNumber M r) :
    reading M O ⟨.value, stack⟩ (b :: more ++ r) =
      andThen (checked (M.fitsNumber stack.length (b :: more).length && M.number (b :: more))
        (O.number (b :: more))) (reading M O ⟨.after, stack⟩ r) := by
  have hbyte : M.numberByte b = true := hM.start_byte b hstart
  have hspace : isSpace b = false := hM.not_space b hbyte
  obtain ⟨h₁, h₂, h₃, h₄, h₅, h₆⟩ := hM.not_open b hstart
  cases hone : M.fitsNumber stack.length 1 with
  | false =>
      have hlong : M.fitsNumber stack.length (b :: more).length = false := by
        by_contra h
        have := hM.fits_mono _ 1 _ (by simp) (eq_true_of_ne_false h)
        simp [hone] at this
      rw [hlong, List.cons_append]
      exact reading_reject (by simp [step, stepValue, *]) _
  | true =>
      have hstep : step M ⟨.value, stack⟩ b = some ⟨.number [b], stack⟩ := by
        simp [step, stepValue, *]
      rw [List.cons_append, reading_step hstep, reading_numberMore hM.fits_mono hmore hone,
        reading_numberEnd hr]
      have hsaid : said M O ⟨.value, stack⟩ b = [] := by simp [said, saidValue, *]
      rw [hsaid, andThen_nil, ← andThen_assoc]
      change _ = andThen (checked (M.fitsNumber stack.length ([b] ++ more).length &&
        M.number ([b] ++ more)) (O.number ([b] ++ more))) _
      cases M.fitsNumber stack.length ([b] ++ more).length <;>
        cases M.number ([b] ++ more) <;> rfl

/-- The bytes of a literal behind its first one. -/
theorem reading_literalRest (hM : M.Lawful) {stack : List Bracket} {done : ℕ} (rest : Text)
    (hdone : M.fitsLiteral stack.length done = true) {b : UInt8} (r : Text) :
    reading M O ⟨.literal done (rest ++ [b]), stack⟩ (rest ++ b :: r) =
      andThen (checked (M.fitsLiteral stack.length (done + (rest.length + 1)))
        (O.literal (endedLiteral (done + rest.length) b))) (reading M O ⟨.after, stack⟩ r) := by
  induction rest generalizing done with
  | nil =>
      cases hroom : M.fitsLiteral stack.length (done + 1) <;>
        simp [reading, step, said, hroom]
  | cons c rest ih =>
      cases hroom : M.fitsLiteral stack.length (done + 1) with
      | false =>
          have hlong : M.fitsLiteral stack.length (done + (rest.length + 1 + 1)) = false := by
            by_contra h
            have := hM.literal_mono _ (done + 1) (done + (rest.length + 1 + 1)) (by omega)
              (eq_true_of_ne_false h)
            simp [hroom] at this
          rw [List.length_cons, hlong, List.cons_append, List.cons_append]
          exact reading_reject (by simp [step, hroom]) _
      | true =>
          have hstep : step M ⟨.literal done (c :: (rest ++ [b])), stack⟩ c =
              some ⟨.literal (done + 1) (rest ++ [b]), stack⟩ := by
            simp [step, hroom]
          have hsaid : said M O ⟨.literal done (c :: (rest ++ [b])), stack⟩ c = [] := by
            simp [said]
          rw [List.cons_append, List.cons_append, reading_step hstep, hsaid, andThen_nil, ih hroom]
          simp only [List.length_cons, Nat.add_assoc, Nat.add_comm 1]

theorem reading_noLiteralRest {stack : List Bracket} {done : ℕ} {rest i : Text}
    (hrest : rest ≠ []) (hi : ¬ rest <+: i) :
    reading M O ⟨.literal done rest, stack⟩ i = none := by
  induction rest generalizing done i with
  | nil => exact (hrest rfl).elim
  | cons c rest ih =>
      cases i with
      | nil => rfl
      | cons b i =>
          by_cases hbc : b = c
          · subst hbc
            have hi' : ¬ rest <+: i := by simpa [List.cons_prefix_cons] using hi
            have hne : rest ≠ [] := by
              rintro rfl
              exact hi' List.nil_prefix
            have hsaid : said M O ⟨.literal done (b :: rest), stack⟩ b = [] := by
              cases rest with
              | nil => exact (hne rfl).elim
              | cons _ _ => simp [said]
            cases hroom : M.fitsLiteral stack.length (done + 1) with
            | false => exact reading_reject (by simp [step, hroom]) _
            | true =>
                have hstep : step M ⟨.literal done (b :: rest), stack⟩ b =
                    some ⟨.literal (done + 1) rest, stack⟩ := by
                  simp [step, hroom, hne]
                rw [reading_step hstep, ih hne hi', andThen_none_right]
          · exact reading_reject (by simp [step, hbc]) _

/-- The state behind the first byte of a literal. -/
theorem step_literal {stack : List Bracket} {b : UInt8} {rest : Text}
    (hlit : b :: rest ∈ [trueText, falseText, nullText]) :
    step M ⟨.value, stack⟩ b = stepLiteral M stack rest := by
  simp only [trueText, falseText, nullText, List.mem_cons, List.cons.injEq, List.not_mem_nil,
    or_false] at hlit
  obtain ⟨rfl, rfl⟩ | ⟨rfl, rfl⟩ | ⟨rfl, rfl⟩ := hlit <;> simp [step, stepValue, isSpace]

theorem said_literal {stack : List Bracket} {b : UInt8} {rest : Text}
    (hlit : b :: rest ∈ [trueText, falseText, nullText]) : said M O ⟨.value, stack⟩ b = [] := by
  simp only [trueText, falseText, nullText, List.mem_cons, List.cons.injEq, List.not_mem_nil,
    or_false] at hlit
  obtain ⟨rfl, -⟩ | ⟨rfl, -⟩ | ⟨rfl, -⟩ := hlit <;> simp [said, saidValue]

/-- A literal. -/
theorem reading_literal (hM : M.Lawful) {stack : List Bracket} {b : UInt8} {rest : Text}
    (hlit : b :: rest ∈ [trueText, falseText, nullText]) (r : Text) :
    reading M O ⟨.value, stack⟩ (b :: rest ++ r) =
      andThen (checked (M.fitsLiteral stack.length (b :: rest).length) (O.literal (b :: rest)))
        (reading M O ⟨.after, stack⟩ r) := by
  cases hone : M.fitsLiteral stack.length 1 with
  | false =>
      have hlong : M.fitsLiteral stack.length (b :: rest).length = false := by
        by_contra h
        have := hM.literal_mono _ 1 _ (by simp) (eq_true_of_ne_false h)
        simp [hone] at this
      rw [hlong, List.cons_append]
      exact reading_reject ((step_literal hlit).trans (by simp [stepLiteral, hone])) _
  | true =>
      rw [List.cons_append, reading_step ((step_literal hlit).trans (by rw [stepLiteral, if_pos hone])),
        said_literal hlit, andThen_nil]
      simp only [trueText, falseText, nullText, List.mem_cons, List.cons.injEq, List.not_mem_nil,
        or_false] at hlit
      obtain ⟨rfl, rfl⟩ | ⟨rfl, rfl⟩ | ⟨rfl, rfl⟩ := hlit
      · exact reading_literalRest hM [0x72, 0x75] hone r
      · exact reading_literalRest hM [0x61, 0x6c, 0x73] hone r
      · exact reading_literalRest hM [0x75, 0x6c] hone r

/-- The first byte of a literal with other bytes behind it. -/
theorem reading_noLiteral {stack : List Bracket} {b : UInt8} {rest i : Text}
    (hlit : b :: rest ∈ [trueText, falseText, nullText]) (hi : ¬ rest <+: i) :
    reading M O ⟨.value, stack⟩ (b :: i) = none := by
  have hne : rest ≠ [] := by
    rintro rfl
    simp [trueText, falseText, nullText] at hlit
  cases hone : M.fitsLiteral stack.length 1 with
  | false => exact reading_reject ((step_literal hlit).trans (by simp [stepLiteral, hone])) _
  | true =>
      rw [reading_step ((step_literal hlit).trans (by rw [stepLiteral, if_pos hone])),
        reading_noLiteralRest hne hi, andThen_none_right]

/-! ## Bytes out of place -/

/-- The bytes that a value may start with. -/
def startsValue (M : Machine S) (b : UInt8) : Bool :=
  b == 0x22 || b == 0x7b || b == 0x5b || b == 0x74 || b == 0x66 || b == 0x6e || M.numberStart b

theorem reading_noValue {stack : List Bracket} {i : Text}
    (hi : ∀ b ∈ i.head?, isSpace b = false ∧ startsValue M b = false) :
    reading M O ⟨.value, stack⟩ i = none := by
  cases i with
  | nil => rfl
  | cons b i =>
      obtain ⟨hspace, hstart⟩ := hi b (by simp)
      refine reading_reject ?_ i
      simp [startsValue] at hstart
      simp [step, stepValue, hspace, hstart]

/-- A text that ends inside a container. -/
theorem reading_open (c : Bracket) (first : Bool) (stack : List Bracket) :
    reading M O ⟨(if first then c.inside else .after).mode, c :: stack⟩ [] = none := by
  cases first <;> cases c <;> rfl

/-- A byte behind a value that neither goes on nor closes. -/
theorem reading_noComma (c : Bracket) (stack : List Bracket) {b : UInt8} (hb : isSpace b = false)
    (hclose : b ≠ c.closing) (hcomma : b ≠ 0x2c) (i : Text) :
    reading M O ⟨.after, c :: stack⟩ (b :: i) = none := by
  refine reading_reject ?_ i
  cases c <;> simp_all [step, stepAfter, Bracket.closing]

theorem reading_noKey {stack : List Bracket} {i : Text}
    (hi : ∀ b ∈ i.head?, isSpace b = false ∧ b ≠ 0x22) :
    reading M O ⟨.key, .object :: stack⟩ i = none := by
  cases i with
  | nil => rfl
  | cons b i =>
      obtain ⟨hspace, hquote⟩ := hi b (by simp)
      exact reading_reject (by simp [step, stepKey, hspace, hquote]) i

theorem reading_noColon {stack : List Bracket} {i : Text}
    (hi : ∀ b ∈ i.head?, isSpace b = false ∧ b ≠ 0x3a) :
    reading M O ⟨.colon, .object :: stack⟩ i = none := by
  cases i with
  | nil => rfl
  | cons b i =>
      obtain ⟨hspace, hcolon⟩ := hi b (by simp)
      exact reading_reject (by simp [step, hspace, hcolon]) i

/-- At the end of a text only blanks may follow. -/
theorem reading_end (i : Text) :
    reading M O ⟨.after, []⟩ i = checked (decide (∀ b ∈ i, isSpace b = true)) [] := by
  induction i with
  | nil => simp [reading, accepting, saidLast]
  | cons b i ih =>
      cases hb : isSpace b with
      | true =>
          have hblank : reading M O ⟨.after, []⟩ (b :: i) = reading M O ⟨.after, []⟩ i :=
            reading_blank (p := .after) trivial hb i
          rw [hblank, ih]
          simp [hb]
      | false =>
          rw [reading_reject (by simp [step, stepAfter, hb])]
          simp [hb]

end

end Json
