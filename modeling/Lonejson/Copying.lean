import Lonejson.Descent

/-!
# Copying a text

A recursive-descent reader that copies every token and puts blanks of its own between
them. Whatever machine reads the copy, it says of it what it says of the text: the copy
has the same reading, or neither has one.
-/

namespace Json

variable {α ε S T ω : Type}

/-- A lexer that rejects more than another one, and closes where the other one closes. -/
def Lexer.Narrower (L : Lexer S) (L' : Lexer T) (rel : T → S → Prop) : Prop :=
  rel L'.start L.start ∧ ∀ t s b, rel t s →
    L.next s b = none ∨ Option.Rel (Option.Rel rel) (L'.next t b) (L.next s b)

/-- The body of a string, which the wider lexer reads, as the machine sees it. -/
theorem reading_body {M : Machine S} (O : Output S ω) {L' : Lexer T} {rel : T → S → Prop}
    (isKey : Bool) (stack : List Bracket) {t u : T} {s : S} {i r : Text}
    (h : (M.lexer isKey stack.length).Narrower L' rel) (hends : L'.Ends t i u r) (hrel : rel t s) :
    ∃ body w, i = body ++ r ∧ ∀ r', reading M O ⟨.string isKey s, stack⟩ (body ++ r') =
      andThen w (reading M O ⟨afterString isKey, stack⟩ r') := by
  induction hends generalizing s with
  | @close t b r hnext =>
      rcases h.2 t s b hrel with hnone | hnarrow
      · exact ⟨[b], none, rfl, fun r' => reading_reject (by simp [step, hnone]) r'⟩
      · rw [hnext] at hnarrow
        generalize hs : (M.lexer isKey stack.length).next s b = o at hnarrow
        cases hnarrow with
        | some hnarrow =>
            cases hnarrow with
            | none =>
                exact ⟨[b], some (O.string isKey s), rfl, fun r' => reading_string (.close hs)⟩
  | @step t t' u b i r hnext hrest ih =>
      rcases h.2 t s b hrel with hnone | hnarrow
      · obtain ⟨body, rfl⟩ := hrest.body
        exact ⟨b :: body, none, rfl, fun r' => reading_reject (by simp [step, hnone]) _⟩
      · rw [hnext] at hnarrow
        generalize hs : (M.lexer isKey stack.length).next s b = o at hnarrow
        cases hnarrow with
        | some hnarrow =>
            cases hnarrow with
            | @some _ s' hrel' =>
                obtain ⟨body, w, rfl, hbody⟩ := ih hrel'
                refine ⟨b :: body, w, rfl, fun r' => ?_⟩
                have hstep : step M ⟨.string isKey s, stack⟩ b = some ⟨.string isKey s', stack⟩ := by
                  simp [step, hs]
                rw [List.cons_append, ← hbody r', reading_step hstep]
                simp [said, hs]

/-- Each token is copied, with blanks where the reader puts some. The strings are those of
a lexer. -/
structure Descent.Copies (D : Descent α ε) (L : Bool → Lexer T) (numberByte : UInt8 → Bool)
    (copied : α → Text) : Prop where
  string : ∀ isKey i a, Holds (fun x => ∃ body q, i = body ++ x.1 ∧
    (L isKey).Ends (L isKey).start i q x.1 ∧ copied x.2 = copied a ++ 0x22 :: body)
      (fun _ => True) (D.string isKey i a)
  number : ∀ b i a, D.numberStart b = true → Holds (fun x => ∃ more, i = more ++ x.1 ∧
    (∀ c ∈ more, numberByte c = true) ∧ (∀ c ∈ x.1.head?, numberByte c = false) ∧
      copied x.2 = copied a ++ b :: more) (fun _ => True) (D.number b i a)
  literal : ∀ b rest i a, b :: rest ∈ [trueText, falseText, nullText] →
    Holds (fun x => i = rest ++ x.1 ∧ copied x.2 = copied a ++ b :: rest) (fun _ => True)
      (D.literal b rest i a)
  opening : ∀ c d a, Holds (fun a' => copied a' = copied a ++ [c.opening]) (fun _ => True)
    (D.opening c d a)
  closing : ∀ c first d a, Holds (fun a' => ∃ blanks, (∀ b ∈ blanks, isSpace b = true) ∧
    copied a' = copied a ++ (blanks ++ [c.closing])) (fun _ => True) (D.closing c first d a)
  item : ∀ c first d a, Holds (fun a' => ∃ blanks, (∀ b ∈ blanks, isSpace b = true) ∧
    copied a' = copied a ++ ((if first then [] else [0x2c]) ++ blanks)) (fun _ => True)
      (D.item c first d a)
  colon : ∀ a, Holds (fun a' => ∃ blanks, (∀ b ∈ blanks, isSpace b = true) ∧
    copied a' = copied a ++ 0x3a :: blanks) (fun _ => True) (D.colon a)

/-- The texts that may come next in the copy. -/
def Leads (M : Machine S) : Place → Text → Prop
  | .value, t => ∃ b j, Space t (b :: j) ∧ isSpace b = false ∧ b ≠ 0x5d
  | .key, t => ∃ j, Space t (0x22 :: j)
  | .after, t => EndsNumber M t
  | _, _ => True

/-- The text that is left and what may come next in the copy have readings that go on
alike. -/
def Echoed (M : Machine S) (O : Output S ω) (copied : α → Text) (s : Text) (p : Place)
    (stack : List Bracket) (i : Text) (a : α) : Prop :=
  p.Fits stack ∧ ∃ w, reading M O initial s = andThen w (reading M O ⟨p.mode, stack⟩ i) ∧
    ∀ t, Leads M p t →
      reading M O initial (copied a ++ t) = andThen w (reading M O ⟨p.mode, stack⟩ t)

section

variable {M : Machine S} {O : Output S ω} {copied : α → Text} {s : Text} {p p' : Place}
  {stack stack' : List Bracket} {i i' : Text} {a a' : α}

theorem reading_blanks (hp : p.Fits stack) {blanks : Text} (hb : ∀ b ∈ blanks, isSpace b = true)
    (i : Text) :
    reading M O ⟨p.mode, stack⟩ (blanks ++ i) = reading M O ⟨p.mode, stack⟩ i := by
  induction blanks with
  | nil => rfl
  | cons b blanks ih =>
      rw [List.cons_append, reading_blank hp (hb b (by simp)), ih fun c hc => hb c (by simp [hc])]

/-- The first member or item, with blanks in front of it. -/
theorem reading_lead (c : Bracket) {t : Text} (ht : Leads M c.next t) :
    reading M O ⟨c.inside.mode, c :: stack⟩ t = reading M O ⟨c.next.mode, c :: stack⟩ t := by
  have hlead : ∃ b j, Space t (b :: j) ∧ isSpace b = false ∧ b ≠ c.closing := by
    cases c with
    | object =>
        obtain ⟨j, hj⟩ := ht
        exact ⟨0x22, j, hj, rfl, by decide⟩
    | array => exact ht
  obtain ⟨b, j, hspace, hb, hclose⟩ := hlead
  clear ht
  induction t with
  | nil => cases hspace
  | cons e t ih =>
      cases he : isSpace e with
      | true =>
          rw [reading_blank (c.inside_fits stack) he, reading_blank (c.next_fits stack) he]
          exact ih ((space_cons_blank he hb).mp hspace)
      | false =>
          obtain ⟨rfl, rfl⟩ := List.cons.inj ((space_cons_solid he).mp hspace)
          exact reading_first c stack hb hclose j

/-- A token that is copied, with blanks around it. -/
theorem Echoed.move (h : Echoed M O copied s p stack i a) (hp : p'.Fits stack') {piece : Text}
    {v : Option (List ω)} (ha : copied a' = copied a ++ piece)
    (hlead : ∀ t, Leads M p' t → Leads M p (piece ++ t))
    (hi : reading M O ⟨p.mode, stack⟩ i = andThen v (reading M O ⟨p'.mode, stack'⟩ i'))
    (ht : ∀ t, Leads M p' t →
      reading M O ⟨p.mode, stack⟩ (piece ++ t) = andThen v (reading M O ⟨p'.mode, stack'⟩ t)) :
    Echoed M O copied s p' stack' i' a' := by
  obtain ⟨-, w, hs, hcopy⟩ := h
  refine ⟨hp, andThen w v, ?_, fun t hlead' => ?_⟩
  · rw [hs, hi, andThen_assoc]
  · rw [ha, List.append_assoc, hcopy _ (hlead t hlead'), ht t hlead', andThen_assoc]

theorem leads_solid {b : UInt8} (hb : isSpace b = false) (hne : b ≠ 0x5d) (t : Text) :
    Leads M .value (b :: t) := ⟨b, t, .done, hb, hne⟩

theorem endsNumber_blank (hM : M.Lawful) {b : UInt8} (hb : isSpace b = true) (t : Text) :
    EndsNumber M (b :: t) := by
  intro c hc
  obtain rfl : b = c := by simpa using hc
  by_contra h
  have := hM.not_space b (by simpa using h)
  simp [hb] at this

theorem endsNumber_close (hM : M.Lawful) {b : UInt8} (hb : b ∈ [0x2c, 0x7d, 0x5d]) (t : Text) :
    EndsNumber M (b :: t) := by
  intro c hc
  obtain rfl : b = c := by simpa using hc
  by_contra h
  obtain ⟨h₁, h₂, h₃⟩ := hM.not_close b (by simpa using h)
  simp [h₁, h₂, h₃] at hb

/-- A token of a copying reader keeps the echo. -/
theorem Descent.Copies.keeps {D : Descent α ε} {L : Bool → Lexer T} {rel : T → S → Prop}
    (h : D.Copies L M.numberByte copied) (hM : M.Lawful) (hstart : D.numberStart = M.numberStart)
    (hL : ∀ isKey d, (M.lexer isKey d).Narrower (L isKey) rel) (s : Text) :
    D.Keeps (Echoed M O copied s) fun _ => True where
  blank p stack b i a hb hi := by
    obtain ⟨hp, w, hs, hcopy⟩ := hi
    exact ⟨hp, w, by rw [hs, reading_blank hp hb], hcopy⟩
  string stack i a hi := by
    have hstring := h.string false i a
    cases hx : D.string false i a with
    | error e => trivial
    | ok x =>
        rw [hx] at hstring
        obtain ⟨body, q, hbody, hends, hcopied⟩ := hstring
        obtain ⟨body', w, hbody', hread⟩ := reading_body O false stack
          (hL false stack.length) hends (hL false stack.length).1
        obtain rfl : body = body' := List.append_cancel_right (hbody.symm.trans hbody')
        refine ⟨hends.length.le, hi.move trivial hcopied
          (v := andThen (checked (M.enter stack.length 0x22) []) w) ?_ ?_ ?_⟩
        · intro t _
          exact leads_solid (by decide) (by decide) _
        · rw [andThen_assoc, hbody]
          exact (reading_quote stack _).trans (congrArg _ (hread _))
        · intro t _
          rw [List.cons_append, andThen_assoc]
          exact (reading_quote stack _).trans (congrArg _ (hread _))
  key stack i a hi := by
    obtain ⟨outer, rfl⟩ := hi.1
    have hstring := h.string true i a
    cases hx : D.string true i a with
    | error e => trivial
    | ok x =>
        rw [hx] at hstring
        obtain ⟨body, q, hbody, hends, hcopied⟩ := hstring
        obtain ⟨body', w, hbody', hread⟩ := reading_body O true (.object :: outer)
          (hL true _) hends (hL true _).1
        obtain rfl : body = body' := List.append_cancel_right (hbody.symm.trans hbody')
        refine ⟨hends.length.le, hi.move ⟨outer, rfl⟩ hcopied
          (v := andThen (checked (M.enter (outer.length + 1) 0x22) []) w) ?_ ?_ ?_⟩
        · intro t _
          exact ⟨_, .done⟩
        · rw [andThen_assoc, hbody]
          exact (reading_keyQuote outer _).trans (congrArg _ (hread _))
        · intro t _
          rw [List.cons_append, andThen_assoc]
          exact (reading_keyQuote outer _).trans (congrArg _ (hread _))
  literal stack b rest i a hlit hi := by
    have hliteral := h.literal b rest i a hlit
    cases hx : D.literal b rest i a with
    | error e => trivial
    | ok x =>
        rw [hx] at hliteral
        obtain ⟨rfl, hcopied⟩ := hliteral
        refine ⟨by simp, hi.move trivial hcopied ?_ (reading_literal hM hlit _)
          fun t _ => reading_literal hM hlit t⟩
        intro t _
        rw [List.cons_append]
        simp only [trueText, falseText, nullText, List.mem_cons, List.cons.injEq, List.not_mem_nil,
          or_false] at hlit
        obtain ⟨rfl, -⟩ | ⟨rfl, -⟩ | ⟨rfl, -⟩ := hlit <;> exact leads_solid (by decide) (by decide) _
  number stack b i a hb hi := by
    have hnumber := h.number b i a hb
    rw [hstart] at hb
    have hbyte := hM.start_byte b hb
    cases hx : D.number b i a with
    | error e => trivial
    | ok x =>
        rw [hx] at hnumber
        obtain ⟨more, rfl, hmore, hr, hcopied⟩ := hnumber
        refine ⟨by simp, hi.move trivial hcopied ?_ (reading_number hM hb hmore hr)
          fun t ht => reading_number hM hb hmore ht⟩
        intro t _
        exact leads_solid (hM.not_space b hbyte) (hM.not_close b hbyte).2.2 _
  opening c stack i a hi := by
    have hopen := h.opening c stack.length a
    cases hx : D.opening c stack.length a with
    | error e => trivial
    | ok a' =>
        rw [hx] at hopen
        refine hi.move (c.inside_fits stack) hopen ?_ (reading_opening c stack i)
          fun t _ => reading_opening c stack t
        intro t _
        cases c <;> exact leads_solid (by decide) (by decide) _
  closing c first stack i a hi := by
    have hclose := h.closing c first stack.length a
    have hfits : (if first then c.inside else .after).Fits (c :: stack) := by
      cases first with
      | true => exact c.inside_fits stack
      | false => trivial
    cases hx : D.closing c first stack.length a with
    | error e => trivial
    | ok a' =>
        rw [hx] at hclose
        obtain ⟨blanks, hblanks, hcopied⟩ := hclose
        refine hi.move trivial hcopied ?_ (reading_closing c first stack i) fun t _ => ?_
        · intro t _
          cases first with
          | true => cases c <;> trivial
          | false =>
              cases blanks with
              | nil => cases c <;> exact endsNumber_close hM (by decide) _
              | cons b blanks => exact endsNumber_blank hM (hblanks b (by simp)) _
        · rw [List.append_assoc, reading_blanks hfits hblanks]
          exact reading_closing c first stack t
  first c stack b i a hb hclose hi := by
    have hitem := h.item c true stack.length a
    cases hx : D.item c true stack.length a with
    | error e => trivial
    | ok a' =>
        rw [hx] at hitem
        obtain ⟨blanks, hblanks, hcopied⟩ := hitem
        refine hi.move (c.next_fits stack) hcopied (v := some []) ?_ ?_ fun t ht => ?_
        · intro t _
          cases c <;> trivial
        · rw [andThen_nil]
          exact reading_first c stack hb hclose i
        · rw [andThen_nil]
          exact (reading_blanks (c.inside_fits stack) hblanks t).trans (reading_lead c ht)
  next c stack i a hi := by
    have hitem := h.item c false stack.length a
    cases hx : D.item c false stack.length a with
    | error e => trivial
    | ok a' =>
        rw [hx] at hitem
        obtain ⟨blanks, hblanks, hcopied⟩ := hitem
        refine hi.move (c.next_fits stack) hcopied (v := some []) ?_ ?_ fun t _ => ?_
        · intro t _
          exact endsNumber_close hM (by decide) _
        · rw [andThen_nil]
          exact reading_comma c stack i
        · rw [andThen_nil]
          exact (reading_comma c stack _).trans (reading_blanks (c.next_fits stack) hblanks t)
  colon stack i a hi := by
    obtain ⟨outer, rfl⟩ := hi.1
    have hcolon := h.colon a
    cases hx : D.colon a with
    | error e => trivial
    | ok a' =>
        rw [hx] at hcolon
        obtain ⟨blanks, hblanks, hcopied⟩ := hcolon
        refine hi.move trivial hcopied (v := some []) (fun t _ => trivial) ?_ fun t _ => ?_
        · rw [andThen_nil]
          exact reading_colon outer i
        · rw [andThen_nil]
          exact (reading_colon outer _).trans (reading_blanks (p := .value) trivial hblanks t)
  noValue _ _ _ _ _ := trivial
  ended _ _ _ _ _ := trivial
  noComma _ _ _ _ _ _ _ _ _ := trivial
  noKey _ _ _ _ _ := trivial
  noColon _ _ _ _ _ := trivial

/-- The copy of a text has the reading of the text, up to what is left of the text. -/
theorem Descent.Copies.reading {D : Descent α ε} {L : Bool → Lexer T} {rel : T → S → Prop}
    (h : D.Copies L M.numberByte copied) (hM : M.Lawful) (hstart : D.numberStart = M.numberStart)
    (hL : ∀ isKey d, (M.lexer isKey d).Narrower (L isKey) rel) {s : Text} {a : α} {x : Text × α}
    (ha : copied a = []) (hx : D.value (2 * s.length + 1) 0 s a = .ok x) :
    ∃ w, Json.reading M O initial s = andThen w (Json.reading M O ⟨.after, []⟩ x.1) ∧
      Json.reading M O initial (copied x.2) = w := by
  have hrun : Echoed M O copied s .value [] s a :=
    ⟨trivial, some [], (andThen_nil _).symm, fun t _ => by rw [ha, andThen_nil]; rfl⟩
  have hend := (h.keeps (O := O) hM hstart hL s).text hrun
  rw [hx] at hend
  obtain ⟨-, w, hs, hcopy⟩ := hend
  refine ⟨w, hs, ?_⟩
  have hnil := hcopy [] (by simp [Leads, EndsNumber])
  rw [List.append_nil] at hnil
  rw [hnil]
  exact (congrArg (andThen w) (reading_end [])).trans (by cases w <;> simp [andThen])

end

end Json
