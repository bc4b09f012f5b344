import Lonejson.Reading
import Lonejson.Trees

/-!
# The tokens of a value

The tokens that a text is made of, in the order a reader meets their ends: a machine tells
them byte by byte, up to the end of the value it is in. A text that spells a tree has the
tokens of the tree, and their texts in a row are the compact text of the tree.
-/

namespace Json

/-- A key takes the colon behind it along, and a comma stands for itself. -/
inductive Token where
  | opening (c : Bracket)
  | closing (c : Bracket)
  | comma
  | key (content : Text)
  | string (content : Text)
  | number (lexeme : Text)
  | literal (text : Text)
  deriving DecidableEq, Repr

section

variable (quote : Text → Text)

def Token.text : Token → Text
  | .opening c => [c.opening]
  | .closing c => [c.closing]
  | .comma => [0x2c]
  | .key content => quoted quote content ++ [0x3a]
  | .string content => quoted quote content
  | .number lexeme => lexeme
  | .literal text => text

def tokensText (ts : List Token) : Text := ts.flatMap (Token.text quote)

@[simp] theorem tokensText_nil : tokensText quote [] = [] := rfl

@[simp] theorem tokensText_cons (t : Token) (ts : List Token) :
    tokensText quote (t :: ts) = t.text quote ++ tokensText quote ts := rfl

@[simp] theorem tokensText_append (ts ts' : List Token) :
    tokensText quote (ts ++ ts') = tokensText quote ts ++ tokensText quote ts' :=
  List.flatMap_append

end

/-! ## The tokens of a tree -/

def commaToken (first : Bool) : List Token := if first then [] else [.comma]

mutual

def Tree.tokens : Tree → List Token
  | .null => [.literal nullText]
  | .bool value => [.literal (boolText value)]
  | .number lexeme => [.number lexeme]
  | .string content => [.string content]
  | .array items => .opening .array :: (itemsTokens true items ++ [.closing .array])
  | .object members => .opening .object :: (membersTokens true members ++ [.closing .object])
  | .raw text => [.literal text]

def itemsTokens (first : Bool) : List Tree → List Token
  | [] => []
  | t :: ts => commaToken first ++ (Tree.tokens t ++ itemsTokens false ts)

def membersTokens (first : Bool) : List (Text × Tree) → List Token
  | [] => []
  | (key, t) :: ms => commaToken first ++ (.key key :: (Tree.tokens t ++ membersTokens false ms))

end

section

variable {quote : Text → Text}

theorem commaToken_text (first : Bool) :
    tokensText quote (commaToken first) = commaUnless first := by
  cases first <;> rfl

mutual

/-- The compact text of a tree is that of its tokens. -/
theorem Tree.tokens_text : (t : Tree) → tokensText quote t.tokens = t.text quote
  | .null | .bool _ | .number _ | .string _ | .raw _ => by
      simp [Tree.tokens, Tree.text, Token.text]
  | .array items => by
      simp [Tree.tokens, Tree.text, Token.text, itemsTokens_text true items, Bracket.opening,
        Bracket.closing]
  | .object members => by
      simp [Tree.tokens, Tree.text, Token.text, membersTokens_text true members, Bracket.opening,
        Bracket.closing]

theorem itemsTokens_text (first : Bool) :
    (ts : List Tree) → tokensText quote (itemsTokens first ts) = itemsText quote first ts
  | [] => rfl
  | t :: ts => by
      simp [itemsTokens, itemsText, commaToken_text, Tree.tokens_text t, itemsTokens_text false ts]

theorem membersTokens_text (first : Bool) :
    (ms : List (Text × Tree)) → tokensText quote (membersTokens first ms) = membersText quote first ms
  | [] => rfl
  | (key, t) :: ms => by
      simp [membersTokens, membersText, commaToken_text, Token.text, Tree.tokens_text t,
        membersTokens_text false ms]

end

end

/-! ## The tokens a machine tells -/

section

variable {S : Type} (M : Machine S) (content : S → Text)

/-- The tokens but for the commas. -/
def tokenOutput : Output S Token where
  opening c := [.opening c]
  closing c := [.closing c]
  string isKey q := [if isKey then .key (content q) else .string (content q)]
  number text := [.number text]
  literal text := [.literal text]

def commaAt (st : State S) (b : UInt8) : List Token :=
  match st.mode with
  | .after | .number _ => if b = 0x2c then [.comma] else []
  | _ => []

/-- The tokens that end at a byte. -/
def tokensAt (st : State S) (b : UInt8) : List Token :=
  said M (tokenOutput content) st b ++ commaAt st b

/-- The machine has read the whole value. -/
def ended : State S → Bool
  | ⟨.after, []⟩ => true
  | _ => false

/-- The number that is the whole value, when a byte ends it. -/
def lastNumber : State S → UInt8 → Option Text
  | ⟨.number text, []⟩, b => if !M.numberByte b && M.number text then some text else none
  | _, _ => none

/-- Tokens in front of those that are told next. -/
def behind (ts : List Token) (x : Option (List Token × Text)) : Option (List Token × Text) :=
  x.map fun y => (ts ++ y.1, y.2)

/-- The tokens up to the end of the value that a state is in, and the text behind it. -/
def valueEnd : State S → Text → Option (List Token × Text)
  | st, [] => if ended st then some ([], []) else none
  | st, b :: s =>
    if ended st then some ([], b :: s)
    else
      match lastNumber M st b with
      | some text => some ([.number text], b :: s)
      | none => (step M st b).bind fun st' => behind (tokensAt M content st b) (valueEnd st' s)

@[simp] theorem behind_nil (x : Option (List Token × Text)) : behind [] x = x := by
  cases x <;> rfl

@[simp] theorem behind_none (ts : List Token) : behind ts none = none := rfl

theorem behind_behind (ts ts' : List Token) (x : Option (List Token × Text)) :
    behind ts (behind ts' x) = behind (ts ++ ts') x := by
  cases x <;> simp [behind]

@[simp] theorem valueEnd_ended (s : Text) : valueEnd M content ⟨.after, []⟩ s = some ([], s) := by
  cases s <;> rfl

/-- The bytes ahead take one state to another, and these tokens end in them. -/
def Tells (st : State S) (s : Text) (ts : List Token) (st' : State S) (s' : Text) : Prop :=
  ∀ more, valueEnd M content st (s ++ more) = behind ts (valueEnd M content st' (s' ++ more))

variable {M content}

theorem Tells.refl (st : State S) (s : Text) : Tells M content st s [] st s :=
  fun _ => (behind_nil _).symm

theorem Tells.trans {st st' st'' : State S} {s s' s'' : Text} {ts ts' : List Token}
    (h : Tells M content st s ts st' s') (h' : Tells M content st' s' ts' st'' s'') :
    Tells M content st s (ts ++ ts') st'' s'' := by
  intro more
  rw [h more, h' more, behind_behind]

theorem Tells.cast {st st' : State S} {s s' : Text} {ts ts' : List Token}
    (h : Tells M content st s ts st' s') (hts : ts = ts') : Tells M content st s ts' st' s' :=
  hts ▸ h

theorem Tells.append {st st' : State S} {s s' : Text} {ts : List Token}
    (h : Tells M content st s ts st' s') (more : Text) :
    Tells M content st (s ++ more) ts st' (s' ++ more) := by
  intro more'
  rw [List.append_assoc, List.append_assoc, h]

/-- A byte in the middle of a value. -/
theorem valueEnd_step {st st' : State S} {b : UInt8} (hend : ended st = false)
    (hlast : lastNumber M st b = none) (hstep : step M st b = some st') (s : Text) :
    valueEnd M content st (b :: s) =
      behind (tokensAt M content st b) (valueEnd M content st' s) := by
  rw [valueEnd, hend, hlast, hstep]
  rfl

theorem valueEnd_reject {st : State S} {b : UInt8} (hend : ended st = false)
    (hlast : lastNumber M st b = none) (hstep : step M st b = none) (s : Text) :
    valueEnd M content st (b :: s) = none := by
  rw [valueEnd, hend, hlast, hstep]
  rfl

theorem Tells.step {st st' : State S} {b : UInt8} (hend : ended st = false)
    (hlast : lastNumber M st b = none) (hstep : Json.step M st b = some st') (s : Text) :
    Tells M content st (b :: s) (tokensAt M content st b) st' s :=
  fun more => valueEnd_step hend hlast hstep (s ++ more)

/-! ## Token by token -/

/-- A machine that no limit stops. -/
structure Machine.Boundless (M : Machine S) : Prop where
  number : ∀ d n, M.fitsNumber d n = true
  literal : ∀ d n, M.fitsLiteral d n = true
  enter : ∀ d b, M.enter d b = true

theorem tells_blank {p : Place} {stack : List Bracket} (hp : p.Fits stack)
    (hopen : p ≠ .after ∨ stack ≠ []) {b : UInt8} (hb : isSpace b = true) (s : Text) :
    Tells M content ⟨p.mode, stack⟩ (b :: s) [] ⟨p.mode, stack⟩ s := by
  have hne : b ≠ 0x7b ∧ b ≠ 0x5b ∧ b ≠ 0x7d ∧ b ≠ 0x5d ∧ b ≠ 0x2c := by
    refine ⟨?_, ?_, ?_, ?_, ?_⟩ <;> (rintro rfl; simp [isSpace] at hb)
  have hend : ended (S := S) ⟨p.mode, stack⟩ = false := by
    cases p <;> cases stack <;> simp_all [ended, Place.mode]
  have hlast : lastNumber M ⟨p.mode, stack⟩ b = none := by
    cases p <;> rfl
  have hstep : Json.step M ⟨p.mode, stack⟩ b = some ⟨p.mode, stack⟩ := by
    cases p with
    | value => simp [Json.step, Place.mode, hb]
    | after => simp [Json.step, Place.mode, stepAfter, hb]
    | itemOrEnd | keyOrEnd | key | colon =>
        obtain ⟨outer, rfl⟩ := hp
        simp [Json.step, Place.mode, hb]
  have htell : tokensAt M content ⟨p.mode, stack⟩ b = [] := by
    cases p with
    | after =>
        rcases stack with _ | ⟨_ | _, stack⟩ <;>
          simp [tokensAt, commaAt, said, Place.mode, saidAfter, Bracket.closing, hne]
    | _ => simp [tokensAt, commaAt, said, Place.mode, saidValue, hne]
  exact htell ▸ Tells.step hend hlast hstep s

section

variable (hM : M.Boundless)

include hM

theorem tells_opening (c : Bracket) (stack : List Bracket) (s : Text) :
    Tells M content ⟨.value, stack⟩ (c.opening :: s) [.opening c]
      ⟨c.inside.mode, c :: stack⟩ s := by
  have hstep : Json.step M ⟨.value, stack⟩ c.opening = some ⟨c.inside.mode, c :: stack⟩ := by
    cases c <;>
      simp [Json.step, stepValue, isSpace, Bracket.opening, Bracket.inside, Place.mode, hM.enter]
  have htell : tokensAt M content ⟨.value, stack⟩ c.opening = [.opening c] := by
    cases c <;> rfl
  exact htell ▸ Tells.step rfl rfl hstep s

theorem tells_quote (stack : List Bracket) (s : Text) :
    Tells M content ⟨.value, stack⟩ (0x22 :: s) []
      ⟨.string false (M.lexer false stack.length).start, stack⟩ s := by
  have hstep : Json.step M ⟨.value, stack⟩ 0x22 =
      some ⟨.string false (M.lexer false stack.length).start, stack⟩ := by
    simp [Json.step, stepValue, isSpace, hM.enter]
  exact Tells.step rfl rfl hstep s

theorem tells_keyQuote {p : Place} (hp : p = .key ∨ p = .keyOrEnd) (stack : List Bracket)
    (s : Text) :
    Tells M content ⟨p.mode, .object :: stack⟩ (0x22 :: s) []
      ⟨.string true (M.lexer true (stack.length + 1)).start, .object :: stack⟩ s := by
  have hstep : Json.step M ⟨p.mode, .object :: stack⟩ 0x22 =
      some ⟨.string true (M.lexer true (stack.length + 1)).start, .object :: stack⟩ := by
    rcases hp with rfl | rfl <;> simp [Json.step, stepKey, isSpace, hM.enter, Place.mode]
  rcases hp with rfl | rfl <;> exact Tells.step rfl rfl hstep s

theorem tells_numberStart (hl : M.Lawful) {b : UInt8} (hb : M.numberStart b = true)
    (stack : List Bracket) (s : Text) :
    Tells M content ⟨.value, stack⟩ (b :: s) [] ⟨.number [b], stack⟩ s := by
  obtain ⟨h1, h2, h3, h4, h5, h6⟩ := hl.not_open b hb
  have hspace := hl.not_space b (hl.start_byte b hb)
  have hstep : Json.step M ⟨.value, stack⟩ b = some ⟨.number [b], stack⟩ := by
    simp [Json.step, stepValue, hspace, h1, h2, h3, h4, h5, h6, hb, hM.number]
  have htell : tokensAt M content ⟨.value, stack⟩ b = [] := by
    simp [tokensAt, said, saidValue, commaAt, h2, h3]
  exact htell ▸ Tells.step rfl rfl hstep s

theorem tells_numberMore (hl : M.Lawful) {data : Text} (hdata : ∀ b ∈ data, M.numberByte b = true)
    (text : Text) (stack : List Bracket) (s : Text) :
    Tells M content ⟨.number text, stack⟩ (data ++ s) [] ⟨.number (text ++ data), stack⟩ s := by
  induction data generalizing text with
  | nil => simpa using Tells.refl _ s
  | cons b data ih =>
      have hb := hdata b (by simp)
      have hlast : lastNumber M ⟨.number text, stack⟩ b = none := by
        cases stack <;> simp [lastNumber, hb]
      have hstep : Json.step M ⟨.number text, stack⟩ b = some ⟨.number (text ++ [b]), stack⟩ := by
        simp [Json.step, hb, hM.number]
      have htell : tokensAt M content ⟨.number text, stack⟩ b = [] := by
        simp [tokensAt, said, commaAt, hb, (hl.not_close b hb).1]
      have hfirst : Tells M content ⟨.number text, stack⟩ (b :: (data ++ s)) []
          ⟨.number (text ++ [b]), stack⟩ (data ++ s) := htell ▸ Tells.step rfl hlast hstep _
      simpa using hfirst.trans (ih (fun c hc => hdata c (by simp [hc])) (text ++ [b]))

theorem tells_literalStart {b : UInt8} {rest : Text}
    (hb : b :: rest ∈ [trueText, falseText, nullText]) (stack : List Bracket) (s : Text) :
    Tells M content ⟨.value, stack⟩ (b :: s) [] ⟨.literal 1 rest, stack⟩ s := by
  have hstep : Json.step M ⟨.value, stack⟩ b = some ⟨.literal 1 rest, stack⟩ := by
    simp only [trueText, falseText, nullText, List.mem_cons, List.cons.injEq, List.not_mem_nil,
      or_false] at hb
    obtain ⟨rfl, rfl⟩ | ⟨rfl, rfl⟩ | ⟨rfl, rfl⟩ := hb <;>
      simp [Json.step, stepValue, stepLiteral, isSpace, hM.literal]
  have htell : tokensAt M content ⟨.value, stack⟩ b = [] := by
    simp only [trueText, falseText, nullText, List.mem_cons, List.cons.injEq, List.not_mem_nil,
      or_false] at hb
    obtain ⟨rfl, -⟩ | ⟨rfl, -⟩ | ⟨rfl, -⟩ := hb <;> rfl
  exact htell ▸ Tells.step rfl rfl hstep s

end

/-- The bracket that closes an empty container, or one behind a value. -/
theorem tells_closing (c : Bracket) (first : Bool) (stack : List Bracket) (s : Text) :
    Tells M content ⟨(if first then c.inside else .after).mode, c :: stack⟩ (c.closing :: s)
      [.closing c] ⟨.after, stack⟩ s := by
  have hend : ended (S := S) ⟨(if first then c.inside else .after).mode, c :: stack⟩ = false := by
    cases first <;> cases c <;> rfl
  have hlast : lastNumber M ⟨(if first then c.inside else .after).mode, c :: stack⟩ c.closing =
      none := by
    cases first <;> cases c <;> rfl
  have hstep : Json.step M ⟨(if first then c.inside else .after).mode, c :: stack⟩ c.closing =
      some ⟨.after, stack⟩ := by
    cases first <;> cases c <;>
      simp [Json.step, stepAfter, isSpace, Place.mode, Bracket.inside, Bracket.closing]
  have htell : tokensAt M content ⟨(if first then c.inside else .after).mode, c :: stack⟩
      c.closing = [.closing c] := by
    cases first <;> cases c <;> rfl
  exact htell ▸ Tells.step hend hlast hstep s

/-- The first member or item of a container. -/
theorem tells_first (c : Bracket) (stack : List Bracket) {b : UInt8} (hb : isSpace b = false)
    (hclose : b ≠ c.closing) (s : Text) :
    Tells M content ⟨c.inside.mode, c :: stack⟩ (b :: s) [] ⟨c.next.mode, c :: stack⟩ (b :: s) := by
  intro more
  rw [behind_nil]
  cases c <;>
    simp_all [valueEnd, ended, lastNumber, Json.step, tokensAt, said, commaAt, Place.mode,
      Bracket.inside, Bracket.next, Bracket.closing]

theorem tells_comma (c : Bracket) (stack : List Bracket) (s : Text) :
    Tells M content ⟨.after, c :: stack⟩ (0x2c :: s) [.comma] ⟨c.next.mode, c :: stack⟩ s := by
  have hstep : Json.step M ⟨.after, c :: stack⟩ 0x2c = some ⟨c.next.mode, c :: stack⟩ := by
    cases c <;> simp [Json.step, stepAfter, isSpace, Place.mode, Bracket.next]
  have htell : tokensAt M content ⟨.after, c :: stack⟩ 0x2c = [.comma] := by
    cases c <;> rfl
  exact htell ▸ Tells.step rfl rfl hstep s

theorem tells_colon (stack : List Bracket) (s : Text) :
    Tells M content ⟨.colon, .object :: stack⟩ (0x3a :: s) [] ⟨.value, .object :: stack⟩ s := by
  have hstep : Json.step M ⟨.colon, .object :: stack⟩ 0x3a = some ⟨.value, .object :: stack⟩ := by
    simp [Json.step, isSpace]
  exact Tells.step rfl rfl hstep s

/-- A string up to its closing quote. -/
theorem tells_string {isKey : Bool} {stack : List Bracket} {q t : S} {i r : Text}
    (h : (M.lexer isKey stack.length).Ends q i t r) :
    Tells M content ⟨.string isKey q, stack⟩ i
      [if isKey then .key (content t) else .string (content t)] ⟨afterString isKey, stack⟩ r := by
  induction h with
  | @close q b r hnext =>
      have hstep : Json.step M ⟨.string isKey q, stack⟩ b = some ⟨afterString isKey, stack⟩ := by
        simp [Json.step, hnext]
      have htell : tokensAt M content ⟨.string isKey q, stack⟩ b =
          [if isKey then .key (content q) else .string (content q)] := by
        simp [tokensAt, said, commaAt, hnext, tokenOutput]
      exact htell ▸ Tells.step rfl rfl hstep r
  | @step q q' t b i r hnext _ ih =>
      have hstep : Json.step M ⟨.string isKey q, stack⟩ b = some ⟨.string isKey q', stack⟩ := by
        simp [Json.step, hnext]
      have htell : tokensAt M content ⟨.string isKey q, stack⟩ b = [] := by
        simp [tokensAt, said, commaAt, hnext]
      have hfirst : Tells M content ⟨.string isKey q, stack⟩ (b :: i) []
          ⟨.string isKey q', stack⟩ i := htell ▸ Tells.step rfl rfl hstep i
      simpa using hfirst.trans ih

/-- A byte that is no byte of the number ends it. -/
theorem tells_numberEnd {text : Text} (hnumber : M.number text = true) {b : UInt8}
    (hb : M.numberByte b = false) (stack : List Bracket) (s : Text) :
    Tells M content ⟨.number text, stack⟩ (b :: s) [.number text] ⟨.after, stack⟩ (b :: s) := by
  intro more
  cases stack with
  | nil => simp [valueEnd, ended, lastNumber, hb, hnumber, behind]
  | cons c stack =>
      simp only [List.cons_append, valueEnd, ended, lastNumber, Bool.false_eq_true, if_false,
        Json.step, hb, hnumber, if_true, tokensAt, said, commaAt]
      cases stepAfter (S := S) (c :: stack) b with
      | none => rfl
      | some st' =>
          rw [Option.bind_some, Option.bind_some, behind_behind, List.append_assoc]
          rfl

theorem tells_literal {text pre rest : Text} {b : UInt8} (hM : M.Boundless)
    (htext : text ∈ [trueText, falseText, nullText]) (hpre : pre ≠ [])
    (hsplit : text = pre ++ b :: rest) (stack : List Bracket) (s : Text) :
    Tells M content ⟨.literal pre.length (b :: rest), stack⟩ (b :: s)
      (if rest = [] then [.literal text] else [])
      (if rest = [] then ⟨.after, stack⟩ else ⟨.literal (pre.length + 1) rest, stack⟩) s := by
  have hstep : Json.step M ⟨.literal pre.length (b :: rest), stack⟩ b =
      some (if rest = [] then ⟨.after, stack⟩ else ⟨.literal (pre.length + 1) rest, stack⟩) := by
    simp only [Json.step, hM.literal, and_self, if_true]
    split <;> rfl
  have htell : tokensAt M content ⟨.literal pre.length (b :: rest), stack⟩ b =
      if rest = [] then [.literal text] else [] := by
    by_cases hrest : rest = []
    · subst hrest
      have hended : endedLiteral pre.length b = text := by
        have hparts (init : Text) (last : UInt8) (h : init ++ [last] = pre ++ [b]) :
            pre = init ∧ b = last := by
          obtain ⟨hinit, hlast⟩ := List.append_inj' h rfl
          exact ⟨hinit.symm, by simpa using hlast.symm⟩
        simp only [List.mem_cons, List.not_mem_nil, or_false] at htext
        rcases htext with rfl | rfl | rfl
        · obtain ⟨rfl, rfl⟩ := hparts [0x74, 0x72, 0x75] 0x65 hsplit
          rfl
        · obtain ⟨rfl, rfl⟩ := hparts [0x66, 0x61, 0x6c, 0x73] 0x65 hsplit
          rfl
        · obtain ⟨rfl, rfl⟩ := hparts [0x6e, 0x75, 0x6c] 0x6c hsplit
          rfl
      simp [tokensAt, said, commaAt, tokenOutput, hended]
    · have hlen : rest.length ≠ 0 := by simpa using hrest
      simp [tokensAt, said, commaAt, hrest]
  exact htell ▸ Tells.step rfl rfl hstep s

/-! ## The tokens of a text that spells a tree -/

/-- The strings and numbers of a grammar are those of a machine. -/
structure Lexis.ToldBy (L : Lexis) (M : Machine S) (content : S → Text) : Prop where
  string : ∀ {x i r}, L.string x i r → ∀ isKey d,
    ∃ q, (M.lexer isKey d).Ends (M.lexer isKey d).start i q r ∧ content q = x
  number : ∀ {num}, L.number num → M.number num = true

/-- A text that starts with a byte that ends a number. -/
def EndsAhead (M : Machine S) (r : Text) : Prop := ∃ b s, r = b :: s ∧ M.numberByte b = false

variable {L : Lexis}

theorem EndsAhead.of_space (hl : M.Lawful) {i r : Text} (h : Space i r) (hr : EndsAhead M r) :
    EndsAhead M i := by
  cases h with
  | done => exact hr
  | @skip b i r hb h =>
      refine ⟨b, i, rfl, ?_⟩
      by_contra hnumber
      simp [hl.not_space b (by simpa using hnumber)] at hb

theorem endsAhead_of_closing (hl : M.Lawful) {b : UInt8} (hb : b = 0x2c ∨ b = 0x7d ∨ b = 0x5d)
    (s : Text) : EndsAhead M (b :: s) := by
  refine ⟨b, s, rfl, ?_⟩
  by_contra hnumber
  obtain ⟨h1, h2, h3⟩ := hl.not_close b (by simpa using hnumber)
  rcases hb with rfl | rfl | rfl
  · exact h1 rfl
  · exact h2 rfl
  · exact h3 rfl

theorem tells_space {p : Place} {stack : List Bracket} (hp : p.Fits stack)
    (hopen : p ≠ .after ∨ stack ≠ []) {i r : Text} (h : Space i r) :
    Tells M content ⟨p.mode, stack⟩ i [] ⟨p.mode, stack⟩ r := by
  induction h with
  | done => exact .refl _ _
  | skip hb _ ih => exact (tells_blank hp hopen hb _).trans ih

/-- The first byte of a value is none that ends an array. -/
theorem Spells.head (hl : M.Lawful) (hL : L.ToldBy M content) {t : Tree} {i r : Text}
    (h : Spells L t i r) : ∃ b j, i = b :: j ∧ isSpace b = Bool.false ∧ b ≠ 0x5d := by
  cases h with
  | number h =>
      obtain ⟨b, num, rfl, hb⟩ := hl.number_start _ (hL.number h)
      have hbyte := hl.start_byte b hb
      exact ⟨b, _, rfl, hl.not_space b hbyte, (hl.not_close b hbyte).2.2⟩
  | _ => exact ⟨_, _, rfl, by decide, by decide⟩

/-- A literal from its first byte to its last. -/
theorem tells_literalWhole (hM : M.Boundless) {text : Text}
    (htext : text ∈ [trueText, falseText, nullText]) (stack : List Bracket) (r : Text) :
    Tells M content ⟨.value, stack⟩ (text ++ r) [.literal text] ⟨.after, stack⟩ r := by
  have hrest (n : ℕ) : ∀ pre rest : Text, rest.length = n + 1 → pre ≠ [] → text = pre ++ rest →
      Tells M content ⟨.literal pre.length rest, stack⟩ (rest ++ r) [.literal text]
        ⟨.after, stack⟩ r := by
    induction n with
    | zero =>
        intro pre rest hlen hpre hsplit
        obtain ⟨b, rfl⟩ := List.length_eq_one_iff.mp hlen
        simpa using @tells_literal _ M content _ _ _ _ hM htext hpre hsplit stack r
    | succ n ih =>
        intro pre rest hlen hpre hsplit
        obtain ⟨b, rest, rfl⟩ := List.exists_cons_of_ne_nil (l := rest) (by rintro rfl; simp at hlen)
        have hne : rest ≠ [] := by
          rintro rfl
          simp at hlen
        have hfirst := @tells_literal _ M content _ _ _ _ hM htext hpre hsplit stack (rest ++ r)
        rw [if_neg hne, if_neg hne] at hfirst
        have hmore := ih (pre ++ [b]) rest (by simpa using hlen) (by simp) (by simpa using hsplit)
        rw [List.length_append, List.length_singleton] at hmore
        exact hfirst.trans hmore
  obtain ⟨b, rest, rfl⟩ := List.exists_cons_of_ne_nil (l := text) (by
    rintro rfl
    simp [trueText, falseText, nullText] at htext)
  have hne : rest ≠ [] := by
    rintro rfl
    simp [trueText, falseText, nullText] at htext
  have hlen : rest.length = rest.length - 1 + 1 := by
    have := List.length_pos_iff.mpr hne
    omega
  exact (tells_literalStart hM htext stack (rest ++ r)).trans
    (hrest (rest.length - 1) [b] rest hlen (by simp) rfl)

/-- A member, from the blanks in front of its key to those behind its value. -/
theorem tells_member (hM : M.Boundless) (hL : L.ToldBy M content) {p : Place}
    (hp : p = .key ∨ p = .keyOrEnd) {outer : List Bracket} {key : Text} {t : Tree}
    {i j k l m x r : Text} (hi : Space i (0x22 :: j)) (hkey : L.string key j k)
    (hk : Space k (0x3a :: l)) (hl : Space l m)
    (hvalue : Tells M content ⟨.value, .object :: outer⟩ m t.tokens ⟨.after, .object :: outer⟩ x)
    (hx : Space x r) :
    Tells M content ⟨p.mode, .object :: outer⟩ i (.key key :: t.tokens)
      ⟨.after, .object :: outer⟩ r := by
  obtain ⟨q, hends, rfl⟩ := hL.string hkey true (outer.length + 1)
  have hfits : p.Fits (.object :: outer) := by
    rcases hp with rfl | rfl <;> exact ⟨outer, rfl⟩
  have hopen : p ≠ .after := by
    rcases hp with rfl | rfl <;> simp
  have hquote := (@tells_space _ M content _ _ hfits (.inl hopen) _ _ hi).trans
    (tells_keyQuote hM hp outer j)
  have hname := hquote.trans (tells_string hends)
  have hcolon := (@tells_space _ M content .colon _ ⟨outer, rfl⟩
    (.inl (by simp)) _ _ hk).trans (tells_colon outer l)
  have hblank := @tells_space _ M content .value (.object :: outer) trivial
    (.inl (by simp)) _ _ hl
  have hend := @tells_space _ M content .after (.object :: outer) trivial
    (.inr (by simp)) _ _ hx
  exact (((hname.trans hcolon).trans hblank).trans hvalue).trans hend |>.cast (by simp)

/-- An item, from the blanks in front of it to those behind it. -/
theorem tells_item {p : Place} (hp : p = .value ∨ p = .itemOrEnd) {outer : List Bracket} {t : Tree}
    {i j k r : Text} (hi : Space i j) (hhead : ∃ b s, j = b :: s ∧ isSpace b = false ∧ b ≠ 0x5d)
    (hvalue : Tells M content ⟨.value, .array :: outer⟩ j t.tokens ⟨.after, .array :: outer⟩ k)
    (hk : Space k r) :
    Tells M content ⟨p.mode, .array :: outer⟩ i t.tokens ⟨.after, .array :: outer⟩ r := by
  obtain ⟨b, s, rfl, hb, hclose⟩ := hhead
  have hfits : p.Fits (.array :: outer) := by
    rcases hp with rfl | rfl
    · trivial
    · exact ⟨outer, rfl⟩
  have hopen : p ≠ .after := by
    rcases hp with rfl | rfl <;> simp
  have hfirst : Tells M content ⟨p.mode, .array :: outer⟩ (b :: s) [] ⟨.value, .array :: outer⟩
      (b :: s) := by
    rcases hp with rfl | rfl
    · exact .refl _ _
    · exact tells_first .array outer hb hclose s
  have hend := @tells_space _ M content .after (.array :: outer) trivial
    (.inr (by simp)) _ _ hk
  have hblank := @tells_space _ M content _ _ hfits (.inl hopen) _ _ hi
  exact ((hblank.trans hfirst).trans hvalue).trans hend |>.cast (by simp)

mutual

theorem Spells.tells (hl : M.Lawful) (hM : M.Boundless) (hL : L.ToldBy M content) {t : Tree}
    {i r : Text} (h : Spells L t i r) (hr : EndsAhead M r) (stack : List Bracket) :
    Tells M content ⟨.value, stack⟩ i t.tokens ⟨.after, stack⟩ r := by
  match h with
  | .string h =>
      obtain ⟨q, hends, rfl⟩ := hL.string h false stack.length
      exact (tells_quote hM stack _).trans (tells_string hends)
  | @Spells.number _ num r h =>
      have hnumber := hL.number h
      obtain ⟨b, s, rfl, hb⟩ := hr
      obtain ⟨first, more, rfl, hfirst⟩ := hl.number_start _ hnumber
      have hmore := hl.number_bytes _ hnumber
      have hstart := @tells_numberStart _ M content hM hl _ hfirst stack (more ++ b :: s)
      have hread := @tells_numberMore _ M content hM hl more
        (fun c hc => hmore c (List.mem_cons_of_mem _ hc)) [first] stack (b :: s)
      exact (hstart.trans hread).trans (tells_numberEnd hnumber hb stack s)
  | .true => exact tells_literalWhole hM (by simp) stack r
  | .false => exact tells_literalWhole hM (by simp) stack r
  | .null => exact tells_literalWhole hM (by simp) stack r
  | .emptyObject h =>
      have hspace := @tells_space _ M content .keyOrEnd _ ⟨stack, rfl⟩
        (.inl (by simp)) _ _ h
      exact ((tells_opening hM .object stack _).trans hspace).trans
        (tells_closing .object true stack r)
  | .object h =>
      exact (tells_opening hM .object stack _).trans (h.tells hl hM hL (.inr rfl) stack)
  | .emptyArray h =>
      have hspace := @tells_space _ M content .itemOrEnd _ ⟨stack, rfl⟩
        (.inl (by simp)) _ _ h
      exact ((tells_opening hM .array stack _).trans hspace).trans
        (tells_closing .array true stack r)
  | .array h =>
      exact (tells_opening hM .array stack _).trans (h.tells hl hM hL (.inr rfl) stack)

theorem SpellsMembers.tells (hl : M.Lawful) (hM : M.Boundless) (hL : L.ToldBy M content)
    {ms : List (Text × Tree)} {i r : Text} (h : SpellsMembers L ms i r) {p : Place}
    (hp : p = .key ∨ p = .keyOrEnd) (outer : List Bracket) :
    Tells M content ⟨p.mode, .object :: outer⟩ i (membersTokens true ms ++ [.closing .object])
      ⟨.after, outer⟩ r := by
  match h with
  | .last (.mk (t := t) hj hkey hl' (.mk hx hv hy)) =>
      have hvalue := hv.tells hl hM hL
        (.of_space hl hy (endsAhead_of_closing hl (by simp) _)) (.object :: outer)
      have hmember := tells_member hM hL hp hj hkey hl' hx hvalue hy
      simpa [membersTokens, commaToken] using
        hmember.trans (tells_closing .object false outer r)
  | .cons (.mk (t := t) hj hkey hl' (.mk hx hv hy)) hs =>
      have hvalue := hv.tells hl hM hL
        (.of_space hl hy (endsAhead_of_closing hl (by simp) _)) (.object :: outer)
      have hmember := tells_member hM hL hp hj hkey hl' hx hvalue hy
      have hrest := hs.tells hl hM hL (p := .key) (.inl rfl) outer
      have hcomma := (hmember.trans (tells_comma .object outer _)).trans hrest
      cases hs <;> simpa [membersTokens, commaToken] using hcomma

theorem SpellsItems.tells (hl : M.Lawful) (hM : M.Boundless) (hL : L.ToldBy M content)
    {ts : List Tree} {i r : Text} (h : SpellsItems L ts i r) {p : Place}
    (hp : p = .value ∨ p = .itemOrEnd) (outer : List Bracket) :
    Tells M content ⟨p.mode, .array :: outer⟩ i (itemsTokens true ts ++ [.closing .array])
      ⟨.after, outer⟩ r := by
  match h with
  | .last (.mk hx hv hy) =>
      have hvalue := hv.tells hl hM hL
        (.of_space hl hy (endsAhead_of_closing hl (by simp) _)) (.array :: outer)
      have hitem := tells_item hp hx (hv.head hl hL) hvalue hy
      simpa [itemsTokens, commaToken] using hitem.trans (tells_closing .array false outer r)
  | .cons (.mk hx hv hy) hs =>
      have hvalue := hv.tells hl hM hL
        (.of_space hl hy (endsAhead_of_closing hl (by simp) _)) (.array :: outer)
      have hitem := tells_item hp hx (hv.head hl hL) hvalue hy
      have hrest := hs.tells hl hM hL (p := .value) (.inl rfl) outer
      have hcomma := (hitem.trans (tells_comma .array outer _)).trans hrest
      cases hs <;> simpa [itemsTokens, commaToken] using hcomma

end

end

end Json
