import Lonejson.Reading

/-!
# Recursive descent

A reader with one function for each nonterminal of the grammar, over a state of its own.
What it does at a token is left open; a rule derives from what it does at each token what
a whole run does, and from it that the reader says what the machine says.
-/

namespace Json

/-- Where a text is not one of the grammar. -/
inductive Fault where
  | value
  | unterminated (c : Bracket)
  | comma (c : Bracket)
  /-- Something else than the quote of a key, or the end of the text. -/
  | key (ended : Bool)
  | colon
  | fuel
  deriving DecidableEq, Repr

/-- What a reader does at the tokens. The strings are read behind their quote, numbers and
literals behind their first byte; a depth is the number of containers around. -/
structure Descent (α ε : Type) where
  string : Bool → Text → α → Except ε (Text × α)
  numberStart : UInt8 → Bool
  number : UInt8 → Text → α → Except ε (Text × α)
  /-- The first byte of the literal, and its other bytes. -/
  literal : UInt8 → Text → Text → α → Except ε (Text × α)
  opening : Bracket → ℕ → α → Except ε α
  /-- The flag says that the container is empty. -/
  closing : Bracket → Bool → ℕ → α → Except ε α
  /-- Before a member or an item; the flag says that it is the first one. -/
  item : Bracket → Bool → ℕ → α → Except ε α
  colon : α → Except ε α
  fault : Fault → α → ε

/-- The text behind the blanks in front of it. -/
def dropSpace : Text → Text
  | [] => []
  | b :: i => if isSpace b then dropSpace i else b :: i

variable {α ε : Type}

/-- The comma in front of a member or an item that is not the first. -/
def Descent.separator (D : Descent α ε) (c : Bracket) (first : Bool) (d : ℕ) (b : UInt8) (i : Text) (a : α) :
    Except ε (Text × α) :=
  if first then (D.item c true d a).map (b :: i, ·)
  else if b = 0x2c then (D.item c false d a).map (i, ·)
  else .error (D.fault (.comma c) a)

/-- A key and its colon. -/
def Descent.key (D : Descent α ε) (i : Text) (a : α) : Except ε (Text × α) :=
  match dropSpace i with
  | [] => .error (D.fault (.key true) a)
  | b :: i =>
    if b = 0x22 then
      (D.string true i a).bind fun x =>
        match dropSpace x.1 with
        | [] => .error (D.fault .colon x.2)
        | b :: i =>
          if b = 0x3a then (D.colon x.2).map (i, ·) else .error (D.fault .colon x.2)
    else .error (D.fault (.key false) a)

mutual

/-- A value with the blanks in front of it. -/
def Descent.value (D : Descent α ε) : ℕ → ℕ → Text → α → Except ε (Text × α)
  | 0, _, _, a => .error (D.fault .fuel a)
  | n + 1, d, i, a =>
    match dropSpace i with
    | [] => .error (D.fault .value a)
    | b :: i =>
      if b = 0x22 then D.string false i a
      else if b = 0x7b then (D.opening .object d a).bind (D.members n d true i)
      else if b = 0x5b then (D.opening .array d a).bind (D.items n d true i)
      else if b = 0x74 then D.literal b [0x72, 0x75, 0x65] i a
      else if b = 0x66 then D.literal b [0x61, 0x6c, 0x73, 0x65] i a
      else if b = 0x6e then D.literal b [0x75, 0x6c, 0x6c] i a
      else if D.numberStart b then D.number b i a
      else .error (D.fault .value a)

/-- The rest of an object. -/
def Descent.members (D : Descent α ε) : ℕ → ℕ → Bool → Text → α → Except ε (Text × α)
  | 0, _, _, _, a => .error (D.fault .fuel a)
  | n + 1, d, first, i, a =>
    match dropSpace i with
    | [] => .error (D.fault (.unterminated .object) a)
    | b :: i =>
      if b = 0x7d then (D.closing .object first d a).map (i, ·)
      else
        (D.separator .object first d b i a).bind fun x =>
          (D.key x.1 x.2).bind fun y =>
            (D.value n (d + 1) y.1 y.2).bind fun z => D.members n d false z.1 z.2

/-- The rest of an array. -/
def Descent.items (D : Descent α ε) : ℕ → ℕ → Bool → Text → α → Except ε (Text × α)
  | 0, _, _, _, a => .error (D.fault .fuel a)
  | n + 1, d, first, i, a =>
    match dropSpace i with
    | [] => .error (D.fault (.unterminated .array) a)
    | b :: i =>
      if b = 0x5d then (D.closing .array first d a).map (i, ·)
      else
        (D.separator .array first d b i a).bind fun x =>
          (D.value n (d + 1) x.1 x.2).bind fun y => D.items n d false y.1 y.2

end

/-- The rest of a container. -/
def Descent.rest (D : Descent α ε) : Bracket → ℕ → ℕ → Bool → Text → α → Except ε (Text × α)
  | .object => D.members
  | .array => D.items

/-! ## The rule -/

/-- A postcondition for both ways a reader can end. -/
def Holds {β : Type} (Q : β → Prop) (E : ε → Prop) : Except ε β → Prop
  | .ok b => Q b
  | .error e => E e

section

variable {β γ : Type} {Q : β → Prop} {R : γ → Prop} {E : ε → Prop}

theorem Holds.bind {x : Except ε β} {f : β → Except ε γ} (h : Holds Q E x)
    (hf : ∀ b, Q b → Holds R E (f b)) : Holds R E (x.bind f) := by
  cases x with
  | error e => exact h
  | ok b => exact hf b h

theorem Holds.map {x : Except ε β} {f : β → γ} (h : Holds Q E x) (hf : ∀ b, Q b → R (f b)) :
    Holds R E (x.map f) := by
  cases x with
  | error e => exact h
  | ok b => exact hf b h

theorem Holds.imp {x : Except ε β} {Q' : β → Prop} (h : Holds Q E x) (hQ : ∀ b, Q b → Q' b) :
    Holds Q' E x := by
  cases x with
  | error e => exact h
  | ok b => exact hQ b h

theorem Holds.imp_error {x : Except ε β} {E' : ε → Prop} (h : Holds Q E x)
    (hE : ∀ e, E e → E' e) : Holds Q E' x := by
  cases x with
  | error e => exact hE e h
  | ok b => exact h

end

theorem dropSpace_length (i : Text) : (dropSpace i).length ≤ i.length := by
  induction i with
  | nil => exact le_rfl
  | cons b i ih =>
      rw [dropSpace]
      split
      · exact ih.trans (Nat.le_succ _)
      · exact le_rfl

theorem dropSpace_head (i : Text) : ∀ b ∈ (dropSpace i).head?, isSpace b = false := by
  induction i with
  | nil => simp [dropSpace]
  | cons b i ih =>
      rw [dropSpace]
      split
      · exact ih
      · next hb => simpa using hb

/-- What holds between the tokens of a run, and of its errors. A token leaves a text that
is no longer than the one behind its first byte. -/
structure Descent.Keeps (D : Descent α ε) (I : Place → List Bracket → Text → α → Prop) (E : ε → Prop) : Prop where
  blank : ∀ p stack b i a, isSpace b = true → I p stack (b :: i) a → I p stack i a
  string : ∀ stack i a, I .value stack (0x22 :: i) a →
    Holds (fun x => x.1.length ≤ i.length ∧ I .after stack x.1 x.2) E (D.string false i a)
  key : ∀ stack i a, I .key stack (0x22 :: i) a →
    Holds (fun x => x.1.length ≤ i.length ∧ I .colon stack x.1 x.2) E (D.string true i a)
  literal : ∀ stack b rest i a, b :: rest ∈ [trueText, falseText, nullText] →
    I .value stack (b :: i) a →
    Holds (fun x => x.1.length ≤ i.length ∧ I .after stack x.1 x.2) E (D.literal b rest i a)
  number : ∀ stack b i a, D.numberStart b = true → I .value stack (b :: i) a →
    Holds (fun x => x.1.length ≤ i.length ∧ I .after stack x.1 x.2) E (D.number b i a)
  opening : ∀ c stack i a, I .value stack (c.opening :: i) a →
    Holds (I c.inside (c :: stack) i) E (D.opening c stack.length a)
  closing : ∀ c (first : Bool) stack i a,
    I (if first then c.inside else .after) (c :: stack) (c.closing :: i) a →
    Holds (I .after stack i) E (D.closing c first stack.length a)
  first : ∀ c stack b i a, isSpace b = false → b ≠ c.closing →
    I c.inside (c :: stack) (b :: i) a →
    Holds (I c.next (c :: stack) (b :: i)) E (D.item c true stack.length a)
  next : ∀ c stack i a, I .after (c :: stack) (0x2c :: i) a →
    Holds (I c.next (c :: stack) i) E (D.item c false stack.length a)
  colon : ∀ stack i a, I .colon stack (0x3a :: i) a → Holds (I .value stack i) E (D.colon a)
  noValue : ∀ stack i a, (∀ b ∈ i.head?, isSpace b = false ∧ b ∉ [0x22, 0x7b, 0x5b, 0x74, 0x66, 0x6e] ∧
    D.numberStart b = false) → I .value stack i a → E (D.fault .value a)
  ended : ∀ c (first : Bool) stack a, I (if first then c.inside else .after) (c :: stack) [] a →
    E (D.fault (.unterminated c) a)
  noComma : ∀ c stack b i a, isSpace b = false → b ≠ c.closing → b ≠ 0x2c →
    I .after (c :: stack) (b :: i) a → E (D.fault (.comma c) a)
  noKey : ∀ stack i a, (∀ b ∈ i.head?, isSpace b = false ∧ b ≠ 0x22) → I .key stack i a →
    E (D.fault (.key i.isEmpty) a)
  noColon : ∀ stack i a, (∀ b ∈ i.head?, isSpace b = false ∧ b ≠ 0x3a) → I .colon stack i a →
    E (D.fault .colon a)

section

variable {D : Descent α ε} {I : Place → List Bracket → Text → α → Prop} {E : ε → Prop}

theorem Descent.Keeps.dropSpace (h : D.Keeps I E) {p : Place} {stack : List Bracket} {i : Text}
    {a : α} (hi : I p stack i a) : I p stack (dropSpace i) a := by
  induction i with
  | nil => exact hi
  | cons b i ih =>
      rw [Json.dropSpace]
      split
      · next hb => exact ih (h.blank _ _ _ _ _ hb hi)
      · exact hi

theorem Descent.Keeps.separator (h : D.Keeps I E) {c : Bracket} {first : Bool}
    {stack : List Bracket} {b : UInt8} {i : Text} {a : α} (hb : isSpace b = false)
    (hclose : b ≠ c.closing) (hi : I (if first then c.inside else .after) (c :: stack) (b :: i) a) :
    Holds (fun x => x.1.length ≤ i.length + 1 ∧ (first = false → x.1.length ≤ i.length) ∧
      I c.next (c :: stack) x.1 x.2) E (D.separator c first stack.length b i a) := by
  cases first with
  | true =>
      apply (h.first c stack b i a hb hclose hi).map
      intro a' ha'
      exact ⟨le_rfl, by simp, ha'⟩
  | false =>
      by_cases hcomma : b = 0x2c
      · subst hcomma
        apply (h.next c stack i a hi).map
        intro a' ha'
        exact ⟨Nat.le_succ _, fun _ => le_rfl, ha'⟩
      · rw [Descent.separator, if_neg (by simp), if_neg hcomma]
        exact h.noComma c stack b i a hb hclose hcomma hi

theorem Descent.Keeps.keyColon (h : D.Keeps I E) {stack : List Bracket} {i : Text} {a : α}
    (hi : I .key stack i a) :
    Holds (fun x => x.1.length + 2 ≤ i.length ∧ I .value stack x.1 x.2) E (D.key i a) := by
  have hkey := h.dropSpace hi
  have hhead := dropSpace_head i
  have hlength := dropSpace_length i
  rw [Descent.key]
  generalize Json.dropSpace i = j at hkey hhead hlength
  cases j with
  | nil => exact h.noKey stack [] a (by simp) hkey
  | cons b j =>
      have hb : isSpace b = false := hhead b (by simp)
      by_cases hquote : b = 0x22
      · subst hquote
        dsimp only
        rw [if_pos rfl]
        apply (h.key stack j a hkey).bind
        rintro ⟨k, a'⟩ ⟨hk, hcolon⟩
        replace hcolon := h.dropSpace hcolon
        have hhead := dropSpace_head k
        have hlength' := dropSpace_length k
        dsimp only
        generalize Json.dropSpace k = l at hcolon hhead hlength'
        cases l with
        | nil => exact h.noColon stack [] a' (by simp) hcolon
        | cons b l =>
            have hb : isSpace b = false := hhead b (by simp)
            by_cases hbyte : b = 0x3a
            · subst hbyte
              dsimp only
              rw [if_pos rfl]
              apply (h.colon stack l a' hcolon).map
              intro a'' ha''
              refine ⟨?_, ha''⟩
              simp only [List.length_cons] at hk hlength hlength' ⊢
              omega
            · dsimp only
              rw [if_neg hbyte]
              exact h.noColon stack (b :: l) a' (by simp [hb, hbyte]) hcolon
      · dsimp only
        rw [if_neg hquote]
        exact h.noKey stack (b :: j) a (by simp [hb, hquote]) hkey

/-- With fuel for twice the length of the text a whole run keeps what its tokens keep. -/
theorem Descent.Keeps.run (h : D.Keeps I E) (n : ℕ) :
    (∀ stack i a, 2 * i.length < n → I .value stack i a →
      Holds (fun x => x.1.length + 1 ≤ i.length ∧ I .after stack x.1 x.2) E
        (D.value n stack.length i a)) ∧
    ∀ c (first : Bool) stack i a, 2 * i.length + 1 < n →
      I (if first then c.inside else .after) (c :: stack) i a →
      Holds (fun x => x.1.length + 1 ≤ i.length ∧ I .after stack x.1 x.2) E
        (D.rest c n stack.length first i a) := by
  induction n with
  | zero => exact ⟨fun _ _ _ hn => absurd hn (by omega), fun _ _ _ _ _ hn => absurd hn (by omega)⟩
  | succ n ih =>
      obtain ⟨ihvalue, ihrest⟩ := ih
      constructor
      · intro stack i a hn hi
        have hvalue := h.dropSpace hi
        have hhead := dropSpace_head i
        have hlength := dropSpace_length i
        rw [Descent.value]
        generalize Json.dropSpace i = j at hvalue hhead hlength
        cases j with
        | nil => exact h.noValue stack [] a (by simp) hvalue
        | cons b j =>
            have hb : isSpace b = false := hhead b (by simp)
            simp only [List.length_cons] at hlength
            have hshort (x : Text × α) (hx : x.1.length ≤ j.length ∧ I .after stack x.1 x.2) :
                x.1.length + 1 ≤ i.length ∧ I .after stack x.1 x.2 := ⟨by omega, hx.2⟩
            -- one container, with the length of what is left in it
            have hopen (c : Bracket) (hc : I .value stack (c.opening :: j) a) :
                Holds (fun x => x.1.length + 1 ≤ i.length ∧ I .after stack x.1 x.2) E
                  ((D.opening c stack.length a).bind (D.rest c n stack.length true j)) := by
              apply (h.opening c stack j a hc).bind
              intro a' ha'
              apply (ihrest c true stack j a' (by omega) ha').imp
              rintro x ⟨hx, hafter⟩
              exact ⟨by omega, hafter⟩
            dsimp only
            split_ifs with h₁ h₂ h₃ h₄ h₅ h₆ h₇
            · subst h₁
              exact (h.string stack j a hvalue).imp hshort
            · subst h₂
              exact hopen .object hvalue
            · subst h₃
              exact hopen .array hvalue
            · subst h₄
              exact (h.literal stack _ _ j a (by simp [trueText]) hvalue).imp hshort
            · subst h₅
              exact (h.literal stack _ _ j a (by simp [falseText]) hvalue).imp hshort
            · subst h₆
              exact (h.literal stack _ _ j a (by simp [nullText]) hvalue).imp hshort
            · exact (h.number stack b j a h₇ hvalue).imp hshort
            · exact h.noValue stack (b :: j) a (by simp [*]) hvalue
      · intro c first stack i a hn hi
        have hplace := h.dropSpace hi
        have hhead := dropSpace_head i
        have hlength := dropSpace_length i
        -- a value, and what is left of the container behind it
        have hloop {j : Text} {x : Text × α} (hj : j.length ≤ i.length) (hx : x.1.length ≤ j.length)
            (hx' : 2 * x.1.length < n) (hvalue : I .value (c :: stack) x.1 x.2) :
            Holds (fun x => x.1.length + 1 ≤ i.length ∧ I .after stack x.1 x.2) E
              ((D.value n (stack.length + 1) x.1 x.2).bind fun z =>
                D.rest c n stack.length false z.1 z.2) := by
          apply (ihvalue (c :: stack) x.1 x.2 hx' hvalue).bind
          rintro z ⟨hz, hafter⟩
          apply (ihrest c false stack z.1 z.2 (by omega) hafter).imp
          rintro y ⟨hy, hafter⟩
          exact ⟨by omega, hafter⟩
        cases c with
        | object =>
            rw [Descent.rest, Descent.members]
            generalize Json.dropSpace i = j at hplace hhead hlength
            cases j with
            | nil => exact h.ended .object first stack a hplace
            | cons b j =>
                have hb : isSpace b = false := hhead b (by simp)
                simp only [List.length_cons] at hlength
                by_cases hclose : b = 0x7d
                · subst hclose
                  dsimp only
                  rw [if_pos rfl]
                  apply (h.closing .object first stack j a hplace).map
                  intro a' ha'
                  exact ⟨hlength, ha'⟩
                · dsimp only
                  rw [if_neg hclose]
                  apply (h.separator (c := .object) hb hclose hplace).bind
                  rintro x ⟨hx, -, hkey⟩
                  apply (h.keyColon hkey).bind
                  rintro y ⟨hy, hvalue⟩
                  exact hloop (j := x.1) (by omega) (by omega) (by omega) hvalue
        | array =>
            rw [Descent.rest, Descent.items]
            generalize Json.dropSpace i = j at hplace hhead hlength
            cases j with
            | nil => exact h.ended .array first stack a hplace
            | cons b j =>
                have hb : isSpace b = false := hhead b (by simp)
                simp only [List.length_cons] at hlength
                by_cases hclose : b = 0x5d
                · subst hclose
                  dsimp only
                  rw [if_pos rfl]
                  apply (h.closing .array first stack j a hplace).map
                  intro a' ha'
                  exact ⟨hlength, ha'⟩
                · dsimp only
                  rw [if_neg hclose]
                  apply (h.separator (c := .array) hb hclose hplace).bind
                  rintro x ⟨hx, -, hvalue⟩
                  exact hloop (j := x.1) (by omega) le_rfl (by omega) hvalue

/-- A text read from its start. -/
theorem Descent.Keeps.text (h : D.Keeps I E) {i : Text} {a : α} (hi : I .value [] i a) :
    Holds (fun x => I .after [] x.1 x.2) E (D.value (2 * i.length + 1) 0 i a) :=
  ((h.run (2 * i.length + 1)).1 [] i a (Nat.lt_succ_self _) hi).imp fun _ hx => hx.2

end

/-! ## Saying what the machine says -/

variable {S ω : Type}

/-- At each token the reader says what the machine says, or it rejects what the machine
rejects, or it gives up. -/
structure Descent.Reads (D : Descent α ε) (M : Machine S) (O : Output S ω) (told : α → List ω)
    (gaveUp : ε → Prop) : Prop where
  lawful : M.Lawful
  numberStart : D.numberStart = M.numberStart
  quotes : ∀ d, M.enter d 0x22 = true
  literals : ∀ d n, M.fitsLiteral d n = true
  string : ∀ isKey d i a,
    Holds (fun x => ∃ q, (M.lexer isKey d).Ends (M.lexer isKey d).start i q x.1 ∧
        told x.2 = told a ++ O.string isKey q)
      (fun e => gaveUp e ∨ ∀ r, ¬ (M.lexer isKey d).Tail (M.lexer isKey d).start i r)
      (D.string isKey i a)
  number : ∀ d b i a, D.numberStart b = true →
    ∃ more r, i = more ++ r ∧ (∀ c ∈ more, M.numberByte c = true) ∧ EndsNumber M r ∧
      Holds (fun x => x.1 = r ∧ M.fitsNumber d (b :: more).length = true ∧
          M.number (b :: more) = true ∧ told x.2 = told a ++ O.number (b :: more))
        (fun e => gaveUp e ∨ M.fitsNumber d (b :: more).length = false ∨
          M.number (b :: more) = false)
        (D.number b i a)
  literal : ∀ b rest i a, b :: rest ∈ [trueText, falseText, nullText] →
    Holds (fun x => i = rest ++ x.1 ∧ told x.2 = told a ++ O.literal (b :: rest))
      (fun e => gaveUp e ∨ ¬ rest <+: i) (D.literal b rest i a)
  opening : ∀ c d a,
    Holds (fun a' => M.enter d c.opening = true ∧ told a' = told a ++ O.opening c)
      (fun e => gaveUp e ∨ M.enter d c.opening = false) (D.opening c d a)
  closing : ∀ c first d a,
    Holds (fun a' => told a' = told a ++ O.closing c) gaveUp (D.closing c first d a)
  item : ∀ c first d a, Holds (fun a' => told a' = told a) gaveUp (D.item c first d a)
  colon : ∀ a, Holds (fun a' => told a' = told a) gaveUp (D.colon a)

/-- Between two tokens a reader has said what the machine says before the text that is
left. -/
def Told (M : Machine S) (O : Output S ω) (told : α → List ω) (s : Text) (a₀ : α) (p : Place)
    (stack : List Bracket) (i : Text) (a : α) : Prop :=
  p.Fits stack ∧ ∃ w, told a = told a₀ ++ w ∧
    reading M O initial s = andThen (some w) (reading M O ⟨p.mode, stack⟩ i)

section

variable {D : Descent α ε} {M : Machine S} {O : Output S ω} {told : α → List ω} {s : Text}
  {a₀ a a' : α} {p p' : Place} {stack stack' : List Bracket} {i i' : Text} {gaveUp : ε → Prop}

theorem Told.move (h : Told M O told s a₀ p stack i a) (hp : p'.Fits stack') {x : List ω}
    (ha : told a' = told a ++ x)
    (hi : reading M O ⟨p.mode, stack⟩ i = andThen (some x) (reading M O ⟨p'.mode, stack'⟩ i')) :
    Told M O told s a₀ p' stack' i' a' := by
  obtain ⟨-, w, hw, hs⟩ := h
  refine ⟨hp, w ++ x, ?_, ?_⟩
  · rw [ha, hw, List.append_assoc]
  · rw [hs, hi, andThen_some]

/-- A step that says nothing. -/
theorem Told.skip (h : Told M O told s a₀ p stack i a) (hp : p'.Fits stack')
    (ha : told a' = told a)
    (hi : reading M O ⟨p.mode, stack⟩ i = reading M O ⟨p'.mode, stack'⟩ i') :
    Told M O told s a₀ p' stack' i' a' :=
  h.move hp (ha.trans (List.append_nil _).symm) (hi.trans (andThen_nil _).symm)

theorem Told.stuck (h : Told M O told s a₀ p stack i a)
    (hi : reading M O ⟨p.mode, stack⟩ i = none) : reading M O initial s = none := by
  obtain ⟨-, w, -, hs⟩ := h
  rw [hs, hi, andThen_none_right]

theorem Lexer.Ends.length {L : Lexer S} {q t : S} {r : Text} (h : L.Ends q i t r) :
    r.length < i.length := by
  induction h with
  | close _ => simp
  | step _ _ ih => exact ih.trans (Nat.lt_succ_self _)

theorem Lexer.Ends.body {L : Lexer S} {q t : S} {r : Text} (h : L.Ends q i t r) :
    ∃ body, i = body ++ r := by
  induction h with
  | @close _ b _ _ => exact ⟨[b], rfl⟩
  | @step _ _ _ b _ _ _ _ ih =>
      obtain ⟨body, rfl⟩ := ih
      exact ⟨b :: body, rfl⟩

theorem Lexer.Ends.unique {L : Lexer S} {q t t' : S} {r r' : Text} (h : L.Ends q i t r)
    (h' : L.Ends q i t' r') : t = t' ∧ r = r' := by
  induction h with
  | close hnext =>
      cases h' with
      | close _ => exact ⟨rfl, rfl⟩
      | step hnext' _ => simp [hnext] at hnext'
  | step hnext _ ih =>
      cases h' with
      | close hnext' => simp [hnext] at hnext'
      | step hnext' hrest =>
          obtain rfl := Option.some.inj (Option.some.inj (hnext.symm.trans hnext'))
          exact ih hrest

theorem Descent.Reads.startsValue (h : D.Reads M O told gaveUp) {b : UInt8}
    (hb : b ∉ [0x22, 0x7b, 0x5b, 0x74, 0x66, 0x6e]) (hnumber : D.numberStart b = false) :
    startsValue M b = false := by
  simp only [List.mem_cons, List.not_mem_nil, or_false, not_or] at hb
  simp [Json.startsValue, hb, ← h.numberStart, hnumber]

/-- What a reader does at its tokens, seen from the text. -/
theorem Descent.Reads.keeps (h : D.Reads M O told gaveUp) (s : Text) (a₀ : α) :
    D.Keeps (Told M O told s a₀) (fun e => gaveUp e ∨ reading M O initial s = none) where
  blank p stack b i a hb hi := hi.skip hi.1 rfl (reading_blank hi.1 hb i)
  string stack i a hi := by
    have hquote : reading M O ⟨.value, stack⟩ (0x22 :: i) =
        reading M O ⟨.string false (M.lexer false stack.length).start, stack⟩ i := by
      rw [reading_quote, h.quotes, checked_true, andThen_nil]
    have hstring := h.string false stack.length i a
    cases hx : D.string false i a with
    | ok x =>
        rw [hx] at hstring
        obtain ⟨q, hends, htold⟩ := hstring
        exact ⟨hends.length.le, hi.move trivial htold (hquote.trans (reading_string hends))⟩
    | error e =>
        rw [hx] at hstring
        exact hstring.imp_right fun hno => hi.stuck (hquote.trans (reading_noString hno))
  key stack i a hi := by
    obtain ⟨outer, rfl⟩ := hi.1
    have hquote : reading M O ⟨.key, .object :: outer⟩ (0x22 :: i) =
        reading M O ⟨.string true (M.lexer true (outer.length + 1)).start, .object :: outer⟩ i := by
      rw [reading_keyQuote, h.quotes, checked_true, andThen_nil]
    have hstring := h.string true (outer.length + 1) i a
    cases hx : D.string true i a with
    | ok x =>
        rw [hx] at hstring
        obtain ⟨q, hends, htold⟩ := hstring
        have hends' : (M.lexer true (Bracket.object :: outer).length).Ends _ i q x.1 := hends
        have hkey : reading M O ⟨.string true (M.lexer true (outer.length + 1)).start,
            .object :: outer⟩ i = andThen (some (O.string true q))
              (reading M O ⟨.colon, .object :: outer⟩ x.1) := reading_string hends'
        exact ⟨hends.length.le, hi.move ⟨outer, rfl⟩ htold (hquote.trans hkey)⟩
    | error e =>
        rw [hx] at hstring
        have hno (hno : ∀ r, ¬ (M.lexer true (Bracket.object :: outer).length).Tail
            (M.lexer true (outer.length + 1)).start i r) :
            reading M O ⟨.string true (M.lexer true (outer.length + 1)).start,
              .object :: outer⟩ i = none := reading_noString hno
        exact hstring.imp_right fun h' => hi.stuck (hquote.trans (hno h'))
  literal stack b rest i a hlit hi := by
    have hliteral := h.literal b rest i a hlit
    cases hx : D.literal b rest i a with
    | ok x =>
        rw [hx] at hliteral
        obtain ⟨rfl, htold⟩ := hliteral
        refine ⟨by simp, hi.move trivial htold ?_⟩
        have hread : reading M O ⟨.value, stack⟩ (b :: rest ++ x.1) = _ :=
          reading_literal h.lawful hlit x.1
        rw [h.literals, checked_true] at hread
        exact hread
    | error e =>
        rw [hx] at hliteral
        exact hliteral.imp_right fun hno => hi.stuck (reading_noLiteral hlit hno)
  number stack b i a hstart hi := by
    obtain ⟨more, r, rfl, hmore, hr, hnumber⟩ := h.number stack.length b i a hstart
    have hread : reading M O ⟨.value, stack⟩ (b :: more ++ r) = _ :=
      reading_number h.lawful (h.numberStart ▸ hstart) hmore hr
    cases hx : D.number b (more ++ r) a with
    | ok x =>
        rw [hx] at hnumber
        obtain ⟨rfl, hfits, hnum, htold⟩ := hnumber
        rw [hfits, hnum] at hread
        exact ⟨by simp, hi.move trivial htold hread⟩
    | error e =>
        rw [hx] at hnumber
        apply hnumber.imp_right
        intro hbad
        apply hi.stuck
        apply hread.trans
        rcases hbad with hbad | hbad
        · rw [hbad, Bool.false_and, checked_false, andThen_none]
        · rw [hbad, Bool.and_false, checked_false, andThen_none]
  opening c stack i a hi := by
    have hopen := h.opening c stack.length a
    have hread := reading_opening (M := M) (O := O) c stack i
    cases hx : D.opening c stack.length a with
    | ok a' =>
        rw [hx] at hopen
        obtain ⟨henter, htold⟩ := hopen
        rw [henter, checked_true] at hread
        exact hi.move (c.inside_fits stack) htold hread
    | error e =>
        rw [hx] at hopen
        apply hopen.imp_right
        intro henter
        rw [henter, checked_false, andThen_none] at hread
        exact hi.stuck hread
  closing c first stack i a hi := by
    have hclose := h.closing c first stack.length a
    cases hx : D.closing c first stack.length a with
    | ok a' =>
        rw [hx] at hclose
        exact hi.move trivial hclose (reading_closing c first stack i)
    | error e =>
        rw [hx] at hclose
        exact .inl hclose
  first c stack b i a hb hclose hi := by
    have hitem := h.item c true stack.length a
    cases hx : D.item c true stack.length a with
    | ok a' =>
        rw [hx] at hitem
        exact hi.skip (c.next_fits stack) hitem (reading_first c stack hb hclose i)
    | error e =>
        rw [hx] at hitem
        exact .inl hitem
  next c stack i a hi := by
    have hitem := h.item c false stack.length a
    cases hx : D.item c false stack.length a with
    | ok a' =>
        rw [hx] at hitem
        exact hi.skip (c.next_fits stack) hitem (reading_comma c stack i)
    | error e =>
        rw [hx] at hitem
        exact .inl hitem
  colon stack i a hi := by
    obtain ⟨outer, rfl⟩ := hi.1
    have hcolon := h.colon a
    cases hx : D.colon a with
    | ok a' =>
        rw [hx] at hcolon
        exact hi.skip trivial hcolon (reading_colon outer i)
    | error e =>
        rw [hx] at hcolon
        exact .inl hcolon
  noValue stack i a hhead hi := by
    refine .inr (hi.stuck (reading_noValue fun b hb => ?_))
    obtain ⟨hspace, hne, hnumber⟩ := hhead b hb
    exact ⟨hspace, h.startsValue hne hnumber⟩
  ended c first stack a hi := .inr (hi.stuck (reading_open c first stack))
  noComma c stack b i a hb hclose hcomma hi :=
    .inr (hi.stuck (reading_noComma c stack hb hclose hcomma i))
  noKey stack i a hhead hi := by
    obtain ⟨outer, rfl⟩ := hi.1
    exact .inr (hi.stuck (reading_noKey hhead))
  noColon stack i a hhead hi := by
    obtain ⟨outer, rfl⟩ := hi.1
    exact .inr (hi.stuck (reading_noColon hhead))

/-- The whole text: the reader has said what the machine says of the text, up to the text
that is left, or the machine rejects the text. -/
theorem Descent.Reads.text (h : D.Reads M O told gaveUp) (s : Text) (a : α) :
    Holds (fun x => ∃ w, told x.2 = told a ++ w ∧
        reading M O initial s = andThen (some w) (reading M O ⟨.after, []⟩ x.1))
      (fun e => gaveUp e ∨ reading M O initial s = none) (D.value (2 * s.length + 1) 0 s a) := by
  have hstart : Told M O told s a .value [] s a :=
    ⟨trivial, [], (List.append_nil _).symm, (andThen_nil _).symm⟩
  exact ((h.keeps s a).text hstart).imp fun _ hx => hx.2

end

end Json
