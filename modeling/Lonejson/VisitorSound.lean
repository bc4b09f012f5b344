import Lonejson.Related
import Lonejson.VisitorTrees

/-!
# What the visitor accepts

A visit that comes to the end of a value has read a text that spells a tree within the limits,
whatever the callbacks do.
-/

namespace Lonejson

open Json (Text Tree Spells SpellsMembers SpellsMember SpellsItems SpellsElement Space bind_eq_ok
  map_eq_ok)

variable {υ : Type} {env : VisitEnv} {v : Visitor υ} {isKey : Bool} {io io' : JsonIo υ}

theorem visitPeek_ok {i r : Text} (h : visitPeek env io i = .ok r) :
    Space i r ∧ ∀ b ∈ r.head?, isJsonSpace b = false := by
  induction i with
  | nil =>
      cases h
      exact ⟨.done, by simp⟩
  | cons b i ih =>
      rw [visitPeek] at h
      split_ifs at h with hlong hspace
      · exact ⟨.skip hspace (ih h).1, (ih h).2⟩
      · cases h
        exact ⟨.done, by simpa using hspace⟩

/-! ## Strings -/

theorem visitQuad_ok {message : String} {n cp cp' : ℕ} {i r : Text}
    (h : visitQuad env message n cp i io = .ok (cp', r)) :
    ∃ (digits : Bytes) (values : List ℕ), i = digits ++ r ∧ digits.length = n ∧
      digits.map hexValue = values.map some ∧ cp' = values.foldl pushHex cp := by
  induction n generalizing cp i with
  | zero =>
      cases h
      exact ⟨[], [], rfl, rfl, rfl, rfl⟩
  | succ n ih =>
      cases i with
      | nil => cases h
      | cons hx i =>
          rw [visitQuad] at h
          split at h
          · cases h
          cases hvalue : hexValue hx with
          | none =>
              rw [hvalue] at h
              cases h
          | some value =>
              rw [hvalue] at h
              obtain ⟨digits, values, rfl, rfl, hvalues, rfl⟩ := ih h
              exact ⟨hx :: digits, value :: values, rfl, rfl, by simp [hvalue, hvalues], rfl⟩

/-- Four digits of a code unit. -/
theorem visitQuad_four {message : String} {cp : ℕ} {i r : Text}
    (h : visitQuad env message 4 0 i io = .ok (cp, r)) :
    ∃ a b c d, i = a :: b :: c :: d :: r ∧ decodeUnicodeQuad a b c d = some cp := by
  obtain ⟨digits, values, rfl, hlength, hvalues, rfl⟩ := visitQuad_ok h
  obtain ⟨a, b, c, d, rfl⟩ := List.length_eq_four.mp hlength
  have hlength' : values.length = 4 := by
    simpa using (congrArg List.length hvalues).symm
  obtain ⟨va, vb, vc, vd, rfl⟩ := List.length_eq_four.mp hlength'
  simp only [List.map_cons, List.map_nil, List.cons.injEq, and_true] at hvalues
  obtain ⟨ha, hb, hc, hd⟩ := hvalues
  exact ⟨a, b, c, d, rfl, decodeUnicodeQuad_eq_some.mpr ⟨va, vb, vc, vd, ha, hb, hc, hd, rfl⟩⟩

theorem reads_ok {b : Byte} {i r : Text} (h : env.reads b i = some r) : i = b :: r := by
  cases i with
  | nil => cases h
  | cons c i =>
      rw [VisitEnv.reads] at h
      split at h
      · next hc =>
          cases h
          obtain ⟨-, rfl⟩ : _ ∧ c = b := by simpa using hc
          rfl
      · cases h

theorem visitLow_ok {high cp : ℕ} {i r : Text} (h : visitLow env high i io = .ok (cp, r)) :
    ∃ a b c d low, i = 0x5c :: 0x75 :: a :: b :: c :: d :: r ∧
      decodeUnicodeQuad a b c d = some low ∧ isLowSurrogate low = true ∧
        cp = combineSurrogates high low := by
  rw [visitLow] at h
  cases hreads : (env.reads 0x5c i).bind (env.reads 0x75) with
  | none =>
      rw [hreads] at h
      cases h
  | some k =>
      rw [hreads] at h
      obtain ⟨j, hj, hk⟩ := Option.bind_eq_some_iff.mp hreads
      obtain rfl := reads_ok hj
      obtain rfl := reads_ok hk
      obtain ⟨⟨low, s⟩, hquad, hpair⟩ := bind_eq_ok h
      obtain ⟨a, b, c, d, rfl, hlow⟩ := visitQuad_four hquad
      split at hpair
      · next hsurrogate =>
          cases hpair
          exact ⟨a, b, c, d, low, rfl, hlow, hsurrogate, rfl⟩
      · cases hpair

/-- What an escape stands for goes in front of the content behind it. -/
def EscapesTo (data : Bytes) (i r : Text) : Prop :=
  ∀ content r', StringText content r r' → StringText (data ++ content) (0x5c :: i) r'

theorem visitUnicode_ok {cp : ℕ} {data : Bytes} {i r : Text}
    (h : visitUnicode env i io = .ok (cp, r)) (hdata : utf8Encode cp = some data) :
    EscapesTo data (0x75 :: i) r := by
  obtain ⟨⟨unit, s⟩, hquad, hunicode⟩ := bind_eq_ok h
  obtain ⟨a, b, c, d, rfl, hunit⟩ := visitQuad_four hquad
  split at hunicode
  · next hhigh =>
      obtain ⟨a', b', c', d', low, rfl, hlo, hlow, rfl⟩ := visitLow_ok hunicode
      exact fun content r' hcontent => .pair hunit hhigh hlo hlow hdata hcontent
  · next hhigh =>
      split at hunicode
      · cases hunicode
      · next hlow =>
          cases hunicode
          exact fun content r' hcontent =>
            .unit hunit (by simpa using hhigh) (by simpa using hlow) hdata hcontent

theorem deliverEscape_ok {data : Bytes} {decoded decoded' : ℕ} {i r : Text}
    (h : deliverEscape env v isKey data decoded i io = .ok (r, decoded', io')) :
    r = i ∧ decoded' = decoded + data.length ∧ env.overText isKey decoded' = false := by
  rw [deliverEscape] at h
  split at h
  · cases h
  · next hover =>
      obtain ⟨_, -, hrest⟩ := map_eq_ok h
      cases hrest
      exact ⟨rfl, rfl, by simpa using hover⟩

theorem visitEscape_ok {decoded decoded' : ℕ} {i r : Text}
    (h : visitEscape env v isKey decoded i io = .ok (r, decoded', io')) :
    ∃ data, EscapesTo data i r ∧ decoded' = decoded + data.length ∧
      env.overText isKey decoded' = false := by
  cases i with
  | nil => cases h
  | cons ch i =>
      rw [visitEscape] at h
      split at h
      · cases h
      cases hsimple : simpleEscape ch with
      | some out =>
          rw [hsimple] at h
          obtain ⟨rfl, hdecoded, hover⟩ := deliverEscape_ok h
          exact ⟨[out], fun _ _ hcontent => .escape hsimple hcontent, hdecoded, hover⟩
      | none =>
          rw [hsimple] at h
          dsimp only at h
          split at h
          · next hu =>
              subst hu
              obtain ⟨⟨cp, s⟩, hcp, hdeliver⟩ := bind_eq_ok h
              dsimp only at hdeliver
              cases hdata : utf8Encode cp with
              | none =>
                  rw [hdata] at hdeliver
                  cases hdeliver
              | some data =>
                  rw [hdata] at hdeliver
                  obtain ⟨rfl, hdecoded, hover⟩ := deliverEscape_ok hdeliver
                  exact ⟨data, visitUnicode_ok hcp hdata, hdecoded, hover⟩
          · cases h

theorem visitPlainChunk_ok {left decoded : ℕ} {span plain : Bytes} {x : Bytes × JsonIo υ}
    (h : visitPlainChunk env v isKey left span plain decoded io = .ok x)
    (hover : env.overText isKey decoded = false) :
    env.overText isKey (decoded + span.length) = false := by
  rw [visitPlainChunk] at h
  split at h
  · next hspan => rwa [hspan, List.length_nil, Nat.add_zero]
  · split at h
    · cases h
    · split at h
      · cases h
      · next hspan => simpa using hspan

/-- Plain bytes go in front of a content. -/
theorem StringText.append_plain {span content i r : Bytes} (hspan : ∀ b ∈ span, isPlain b = true)
    (h : StringText content i r) : StringText (span ++ content) (span ++ i) r := by
  induction span with
  | nil => exact h
  | cons b span ih =>
      exact .plain (hspan b List.mem_cons_self) (ih fun c hc => hspan c (List.mem_cons_of_mem _ hc))

/-- What is read in front of a text that the loop accepts. -/
def ReadsContent (env : VisitEnv) (isKey : Bool)
    (loop : Text → Bytes → ℕ → JsonIo υ → Except (JsonIo υ) (Text × JsonIo υ)) : Prop :=
  ∀ {i r : Text} {plain : Bytes} {decoded : ℕ} {io io' : JsonIo υ},
    loop i plain decoded io = .ok (r, io') → env.overText isKey decoded = false →
    ∃ content, StringText content i r ∧ env.overText isKey (decoded + content.length) = false

theorem visitTextByte_ok
    {loop : Text → Bytes → ℕ → JsonIo υ → Except (JsonIo υ) (Text × JsonIo υ)}
    (hloop : ReadsContent env isKey loop) {i r : Text} {plain : Bytes} {decoded : ℕ}
    (h : visitTextByte env v isKey loop decoded i plain io = .ok (r, io'))
    (hover : env.overText isKey decoded = false) :
    ∃ content, StringText content i r ∧
      env.overText isKey (decoded + content.length) = false := by
  cases i with
  | nil => cases h
  | cons ch i =>
      rw [visitTextByte] at h
      split at h
      · cases h
      split at h
      · next hquote =>
          subst hquote
          obtain ⟨io₁, -, hclose⟩ := bind_eq_ok h
          obtain ⟨io₂, -, hend⟩ := map_eq_ok hclose
          cases hend
          exact ⟨[], .close, hover⟩
      next hquote =>
      split at h
      · cases h
      next hcontrol =>
      split at h
      · next hslash =>
          have hch : isPlain ch = true := by
            simp [isPlain, hquote, hslash, UInt8.not_lt.mp hcontrol]
          dsimp only at h
          split at h
          · cases h
          next hover' =>
          have hnext : ∃ content, StringText content i r ∧
              env.overText isKey (decoded + 1 + content.length) = false := by
            split at h
            · obtain ⟨io₁, -, hrest⟩ := bind_eq_ok h
              exact hloop hrest (by simpa using hover')
            · exact hloop h (by simpa using hover')
          obtain ⟨content, hcontent, hlength⟩ := hnext
          refine ⟨ch :: content, .plain hch hcontent, ?_⟩
          rwa [List.length_cons, Nat.add_comm content.length, ← Nat.add_assoc]
      · next hslash =>
          obtain rfl : ch = 0x5c := by simpa using hslash
          obtain ⟨io₁, -, hrest⟩ := bind_eq_ok h
          obtain ⟨⟨s, decoded', io₂⟩, hescape, hmore⟩ := bind_eq_ok hrest
          obtain ⟨data, hdata, rfl, hover'⟩ := visitEscape_ok hescape
          obtain ⟨content, hcontent, hlength⟩ := hloop hmore hover'
          refine ⟨data ++ content, hdata _ _ hcontent, ?_⟩
          rwa [List.length_append, ← Nat.add_assoc]

theorem visitText_ok (n : ℕ) : ReadsContent env isKey (visitText env v isKey n) := by
  induction n with
  | zero =>
      intro i r plain decoded io io' h
      cases h
  | succ n ih =>
      intro i r plain decoded io io' h hover
      rw [visitText] at h
      obtain ⟨span, hspan⟩ : ∃ span, span = (i.take (env.window i.length)).takeWhile isPlain :=
        ⟨_, rfl⟩
      have hprefix : span <+: i := by
        rw [hspan]
        exact (List.takeWhile_prefix _).trans (List.take_prefix _ _)
      have hplain : ∀ b ∈ span, isPlain b = true := by
        rw [hspan]
        exact fun b hb => List.mem_takeWhile_imp hb
      rw [← hspan] at h
      obtain ⟨rest, rfl⟩ := hprefix
      rw [List.drop_left] at h
      obtain ⟨⟨plain', io₁⟩, hchunk, hbyte⟩ := bind_eq_ok h
      have hover₁ := visitPlainChunk_ok hchunk hover
      suffices hrest : ∃ content, StringText content rest r ∧
          env.overText isKey (decoded + span.length + content.length) = false by
        obtain ⟨content, hcontent, hlength⟩ := hrest
        refine ⟨span ++ content, hcontent.append_plain hplain, ?_⟩
        rwa [List.length_append, ← Nat.add_assoc]
      exact visitTextByte_ok ih hbyte hover₁

/-- A string behind its quote. -/
theorem visitString_ok {i r : Text} (h : visitString env v isKey i io = .ok (r, io')) :
    ∃ content, StringText content i r ∧ withinText (env.textLimit isKey) content = true := by
  obtain ⟨io₁, -, htext⟩ := bind_eq_ok h
  have hzero : env.overText isKey 0 = false := by simp [VisitEnv.overText]
  obtain ⟨content, hcontent, hover⟩ := visitText_ok _ htext hzero
  refine ⟨content, hcontent, ?_⟩
  simpa [VisitEnv.overText, withinText, imp_iff_not_or] using hover

/-! ## Numbers and literals -/

theorem visitDigits_ok {buffer num : Bytes} {i r : Text}
    (h : visitDigits env io buffer i = .ok (num, r)) (hbuffer : buffer.length ≤ env.limits.maxNumberBytes) :
    ∃ more, i = more ++ r ∧ num = buffer ++ more ∧ num.length ≤ env.limits.maxNumberBytes := by
  induction i generalizing buffer with
  | nil =>
      cases h
      exact ⟨[], rfl, (List.append_nil _).symm, hbuffer⟩
  | cons ch i ih =>
      rw [visitDigits] at h
      split at h
      · split at h
        · cases h
        split at h
        · cases h
        next hroom =>
        have hlength : (buffer ++ [ch]).length ≤ env.limits.maxNumberBytes := by
          rw [List.length_append, List.length_singleton]
          omega
        obtain ⟨more, rfl, rfl, hnum⟩ := ih h hlength
        exact ⟨ch :: more, rfl, by simp, hnum⟩
      · cases h
        exact ⟨[], rfl, (List.append_nil _).symm, hbuffer⟩

theorem visitNumber_ok {first : Byte} {i r : Text}
    (h : visitNumber env v first i io = .ok (r, io')) :
    ∃ num, first :: i = num ++ r ∧ JsonNumber num ∧ num.length ≤ env.limits.maxNumberBytes := by
  obtain ⟨io₁, -, hnumber⟩ := bind_eq_ok h
  split at hnumber
  · cases hnumber
  next hpos =>
  obtain ⟨⟨num, s⟩, hdigits, hnumber⟩ := bind_eq_ok hnumber
  obtain ⟨more, rfl, rfl, hlength⟩ := visitDigits_ok hdigits (show 1 ≤ _ by omega)
  split at hnumber
  · next hvalid =>
      obtain ⟨io₂, -, hend⟩ := bind_eq_ok hnumber
      obtain ⟨io₃, -, hr⟩ := map_eq_ok hend
      cases hr
      exact ⟨_, rfl, (isValidJsonNumber_iff _).mp hvalid, hlength⟩
  · cases hnumber

theorem visitLiteral_ok {event : VisitEvent} {rest i r : Text}
    (h : visitLiteral env v event rest i io = .ok (r, io')) : i = rest ++ r := by
  induction rest generalizing i with
  | nil =>
      obtain ⟨io₁, -, hr⟩ := map_eq_ok h
      cases hr
      rfl
  | cons c rest ih =>
      cases i with
      | nil => cases h
      | cons ch i =>
          rw [visitLiteral] at h
          split at h
          · cases h
          split at h
          · next hc => rw [hc, ih h, List.cons_append]
          · cases h

/-! ## Values -/

theorem visitColon_ok {i r : Text} (h : visitColon env i io = .ok (r, io')) :
    Space i (0x3a :: r) ∧ io' = io := by
  rw [visitColon] at h
  split at h
  · next k hpeek =>
      cases h
      exact ⟨(visitPeek_ok hpeek).1, rfl⟩
  · cases h

theorem visitKey_ok {i r : Text} (h : visitKey env v i io = .ok (r, io')) :
    ∃ key j k, Space i (0x22 :: j) ∧ StringText key j k ∧ Space k (0x3a :: r) ∧
      withinText env.limits.maxKeyBytes key = true := by
  rw [visitKey] at h
  split at h
  · next j hpeek =>
      obtain ⟨⟨k, io₁⟩, hstring, hcolon⟩ := bind_eq_ok h
      obtain ⟨key, hkey, hwithin⟩ := visitString_ok hstring
      exact ⟨key, j, k, (visitPeek_ok hpeek).1, hkey, (visitColon_ok hcolon).1, hwithin⟩
  · cases h

/-- A value that has been read, with the blanks in front of it. -/
def ReadsValue (limits : ValueLimits) (depth : ℕ) (i r : Text) : Prop :=
  ∃ t j, Space i j ∧ Spells strictLexis t j r ∧ treeWithin limits depth t = true

/-- Members behind a place in an object, up to its closing brace. -/
def ReadsMembers (limits : ValueLimits) (depth : ℕ) (first : Bool) (i r : Text) : Prop :=
  Space i (0x7d :: r) ∨ ∃ ms j, LoopAt first i j ∧ SpellsMembers strictLexis ms j r ∧
    membersWithin limits (depth + 1) ms = true

/-- Items behind a place in an array, up to its closing bracket. -/
def ReadsItems (limits : ValueLimits) (depth : ℕ) (first : Bool) (i r : Text) : Prop :=
  Space i (0x5d :: r) ∨ ∃ ts j, LoopAt first i j ∧ SpellsItems strictLexis ts j r ∧
    itemsWithin limits (depth + 1) ts = true

/-- A member in front of what is left of its object. -/
theorem ReadsMembers.cons {limits : ValueLimits} {depth : ℕ} {first : Bool} {i j k l m s r : Text}
    {key : Bytes} (hi : LoopAt first i j) (hj : Space j (0x22 :: k)) (hkey : StringText key k l)
    (hl : Space l (0x3a :: m)) (hwithin : withinText limits.maxKeyBytes key = true)
    (hvalue : ReadsValue limits (depth + 1) m s) (hrest : ReadsMembers limits depth false s r) :
    ReadsMembers limits depth first i r := by
  obtain ⟨t, x, hx, ht, htree⟩ := hvalue
  rcases hrest with hclose | ⟨ms, y, hy, hms, hmembers⟩
  · refine .inr ⟨[(key, t)], j, hi, .last (.mk hj hkey hl (.mk hx ht hclose)), ?_⟩
    simp [membersWithin, hwithin, htree]
  · rcases hy with ⟨hfirst, -⟩ | ⟨-, hy⟩
    · cases hfirst
    · refine .inr ⟨(key, t) :: ms, j, hi, .cons (.mk hj hkey hl (.mk hx ht hy)) hms, ?_⟩
      simp [membersWithin, hwithin, htree, hmembers]

/-- An item in front of what is left of its array. -/
theorem ReadsItems.cons {limits : ValueLimits} {depth : ℕ} {first : Bool} {i j s r : Text}
    (hi : LoopAt first i j) (hvalue : ReadsValue limits (depth + 1) j s)
    (hrest : ReadsItems limits depth false s r) : ReadsItems limits depth first i r := by
  obtain ⟨t, x, hx, ht, htree⟩ := hvalue
  rcases hrest with hclose | ⟨ts, y, hy, hts, hitems⟩
  · refine .inr ⟨[t], j, hi, .last (.mk hx ht hclose), ?_⟩
    simp [itemsWithin, htree]
  · rcases hy with ⟨hfirst, -⟩ | ⟨-, hy⟩
    · cases hfirst
    · refine .inr ⟨t :: ts, j, hi, .cons (.mk hx ht hy) hts, ?_⟩
      simp [itemsWithin, htree, hitems]

/-- A blank in front of the first member or item does not count. -/
theorem spellsMembers_space {ms : List (Text × Tree)} {i j r : Text} (h : Space i j)
    (hms : SpellsMembers strictLexis ms j r) : SpellsMembers strictLexis ms i r := by
  cases hms with
  | last hm =>
      cases hm with
      | mk hi hkey hk ht => exact .last (.mk (h.trans hi) hkey hk ht)
  | cons hm hms =>
      cases hm with
      | mk hi hkey hk ht => exact .cons (.mk (h.trans hi) hkey hk ht) hms

theorem spellsItems_space {ts : List Tree} {i j r : Text} (h : Space i j)
    (hts : SpellsItems strictLexis ts j r) : SpellsItems strictLexis ts i r := by
  cases hts with
  | last ht =>
      cases ht with
      | mk hi ht hk => exact .last (.mk (h.trans hi) ht hk)
  | cons ht hts =>
      cases ht with
      | mk hi ht hk => exact .cons (.mk (h.trans hi) ht hk) hts

theorem ReadsMembers.space {limits : ValueLimits} {depth : ℕ} {i j r : Text} (h : Space i j)
    (hj : ReadsMembers limits depth true j r) : ReadsMembers limits depth true i r := by
  rcases hj with hclose | ⟨ms, k, hk, hms, hwithin⟩
  · exact .inl (h.trans hclose)
  · rcases hk with ⟨-, rfl⟩ | ⟨hfirst, -⟩
    · exact .inr ⟨ms, i, .inl ⟨rfl, rfl⟩, spellsMembers_space h hms, hwithin⟩
    · cases hfirst

theorem ReadsItems.space {limits : ValueLimits} {depth : ℕ} {i j r : Text} (h : Space i j)
    (hj : ReadsItems limits depth true j r) : ReadsItems limits depth true i r := by
  rcases hj with hclose | ⟨ts, k, hk, hts, hwithin⟩
  · exact .inl (h.trans hclose)
  · rcases hk with ⟨-, rfl⟩ | ⟨hfirst, -⟩
    · exact .inr ⟨ts, i, .inl ⟨rfl, rfl⟩, spellsItems_space h hts, hwithin⟩
    · cases hfirst

theorem visitMembers_ok {n : ℕ}
    (hvalue : ∀ {depth i r} {io io' : JsonIo υ},
      visitValue env v n depth i io = .ok (r, io') → ReadsValue env.limits depth i r)
    (hmembers : ∀ {depth first i r} {io io' : JsonIo υ},
      visitMembers env v n depth first i io = .ok (r, io') →
      ReadsMembers env.limits depth first i r)
    {depth : ℕ} {first : Bool} {i r : Text}
    (h : visitMembers env v (n + 1) depth first i io = .ok (r, io')) :
    ReadsMembers env.limits depth first i r := by
  rw [visitMembers] at h
  obtain ⟨j, hpeek, hbody⟩ := bind_eq_ok h
  have hspace := (visitPeek_ok hpeek).1
  cases j with
  | nil => cases hbody
  | cons ch j =>
      dsimp only at hbody
      split at hbody
      · next hclose =>
          subst hclose
          obtain ⟨io₁, -, hend⟩ := map_eq_ok hbody
          cases hend
          exact .inl hspace
      split at hbody
      · cases hbody
      next hcomma =>
      obtain ⟨⟨m, io₁⟩, hkey, hbody⟩ := bind_eq_ok hbody
      obtain ⟨⟨s, io₂⟩, hchild, hrest⟩ := bind_eq_ok hbody
      obtain ⟨key, k, l, hk, hstring, hl, hwithin⟩ := visitKey_ok hkey
      cases first with
      | true =>
          exact .space hspace
            (.cons (.inl ⟨rfl, rfl⟩) hk hstring hl hwithin (hvalue hchild) (hmembers hrest))
      | false =>
          obtain rfl : ch = 0x2c := by simpa using hcomma
          exact .cons (.inr ⟨rfl, hspace⟩) hk hstring hl hwithin (hvalue hchild) (hmembers hrest)

theorem visitItems_ok {n : ℕ}
    (hvalue : ∀ {depth i r} {io io' : JsonIo υ},
      visitValue env v n depth i io = .ok (r, io') → ReadsValue env.limits depth i r)
    (hitems : ∀ {depth first i r} {io io' : JsonIo υ},
      visitItems env v n depth first i io = .ok (r, io') → ReadsItems env.limits depth first i r)
    {depth : ℕ} {first : Bool} {i r : Text}
    (h : visitItems env v (n + 1) depth first i io = .ok (r, io')) :
    ReadsItems env.limits depth first i r := by
  rw [visitItems] at h
  obtain ⟨j, hpeek, hbody⟩ := bind_eq_ok h
  have hspace := (visitPeek_ok hpeek).1
  cases j with
  | nil => cases hbody
  | cons ch j =>
      dsimp only at hbody
      split at hbody
      · next hclose =>
          subst hclose
          obtain ⟨io₁, -, hend⟩ := map_eq_ok hbody
          cases hend
          exact .inl hspace
      split at hbody
      · cases hbody
      next hcomma =>
      obtain ⟨⟨s, io₁⟩, hchild, hrest⟩ := bind_eq_ok hbody
      cases first with
      | true => exact .space hspace (.cons (.inl ⟨rfl, rfl⟩) (hvalue hchild) (hitems hrest))
      | false =>
          obtain rfl : ch = 0x2c := by simpa using hcomma
          exact .cons (.inr ⟨rfl, hspace⟩) (hvalue hchild) (hitems hrest)

theorem visitValue_ok {n : ℕ}
    (hmembers : ∀ {depth first i r} {io io' : JsonIo υ},
      visitMembers env v n depth first i io = .ok (r, io') →
      ReadsMembers env.limits depth first i r)
    (hitems : ∀ {depth first i r} {io io' : JsonIo υ},
      visitItems env v n depth first i io = .ok (r, io') → ReadsItems env.limits depth first i r)
    {depth : ℕ} {i r : Text} (h : visitValue env v (n + 1) depth i io = .ok (r, io')) :
    ReadsValue env.limits depth i r := by
  rw [visitValue] at h
  obtain ⟨j, hpeek, hbody⟩ := bind_eq_ok h
  have hspace := (visitPeek_ok hpeek).1
  cases j with
  | nil => cases hbody
  | cons ch j =>
      dsimp only at hbody
      split at hbody
      · next hch =>
          subst hch
          obtain ⟨content, hcontent, hwithin⟩ := visitString_ok hbody
          exact ⟨.string content, _, hspace, .string hcontent, hwithin⟩
      split at hbody
      · next hch =>
          subst hch
          split at hbody
          · cases hbody
          next hdepth =>
          obtain ⟨io₁, -, hrest⟩ := bind_eq_ok hbody
          rcases hmembers hrest with hclose | ⟨ms, k, ⟨-, rfl⟩ | ⟨hfirst, -⟩, hms, hwithin⟩
          · exact ⟨.object [], _, hspace, .emptyObject hclose,
              by simp [treeWithin, membersWithin, Nat.lt_of_not_le hdepth]⟩
          · exact ⟨.object ms, _, hspace, .object hms,
              by simp [treeWithin, hwithin, Nat.lt_of_not_le hdepth]⟩
          · cases hfirst
      split at hbody
      · next hch =>
          subst hch
          split at hbody
          · cases hbody
          next hdepth =>
          obtain ⟨io₁, -, hrest⟩ := bind_eq_ok hbody
          rcases hitems hrest with hclose | ⟨ts, k, ⟨-, rfl⟩ | ⟨hfirst, -⟩, hts, hwithin⟩
          · exact ⟨.array [], _, hspace, .emptyArray hclose,
              by simp [treeWithin, itemsWithin, Nat.lt_of_not_le hdepth]⟩
          · exact ⟨.array ts, _, hspace, .array hts,
              by simp [treeWithin, hwithin, Nat.lt_of_not_le hdepth]⟩
          · cases hfirst
      split at hbody
      · next hch =>
          subst hch
          rw [visitLiteral_ok hbody] at hspace
          exact ⟨.bool true, _, hspace, .true, rfl⟩
      split at hbody
      · next hch =>
          subst hch
          rw [visitLiteral_ok hbody] at hspace
          exact ⟨.bool false, _, hspace, .false, rfl⟩
      split at hbody
      · next hch =>
          subst hch
          rw [visitLiteral_ok hbody] at hspace
          exact ⟨.null, _, hspace, .null, rfl⟩
      split at hbody
      · obtain ⟨num, hnum, hvalid, hlength⟩ := visitNumber_ok hbody
        rw [hnum] at hspace
        exact ⟨.number num, _, hspace, .number hvalid, by simpa [treeWithin] using hlength⟩
      · cases hbody

/-- A visit that comes to the end of a value has read one that spells a tree. -/
theorem visitor_reads (env : VisitEnv) (v : Visitor υ) (n : ℕ) :
    (∀ {depth i r} {io io' : JsonIo υ},
      visitValue env v n depth i io = .ok (r, io') → ReadsValue env.limits depth i r) ∧
    (∀ {depth first i r} {io io' : JsonIo υ},
      visitMembers env v n depth first i io = .ok (r, io') →
      ReadsMembers env.limits depth first i r) ∧
    ∀ {depth first i r} {io io' : JsonIo υ},
      visitItems env v n depth first i io = .ok (r, io') →
      ReadsItems env.limits depth first i r := by
  induction n with
  | zero =>
      refine ⟨?_, ?_, ?_⟩
      · intro depth i r io io' h
        cases h
      · intro depth first i r io io' h
        cases h
      · intro depth first i r io io' h
        cases h
  | succ n ih =>
      obtain ⟨hvalue, hmembers, hitems⟩ := ih
      exact ⟨visitValue_ok hmembers hitems, visitMembers_ok hvalue hmembers,
        visitItems_ok hvalue hitems⟩

end Lonejson
