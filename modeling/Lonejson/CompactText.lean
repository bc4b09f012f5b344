import Lonejson.VisitorTrees
import Lonejson.Writer

/-!
# Compact texts

The compact text of a tree spells that tree again, when some text does. Escaping writes every
byte of a string so that the decoder gives it back.
-/

namespace Json

variable {L : Lexis}

/-- Strings whose text may be followed by anything. -/
def Lexis.Extends (L : Lexis) : Prop :=
  ∀ content i r s, L.string content i r → L.string content (i ++ s) (r ++ s)

theorem Space.append {i r : Text} (h : Space i r) (s : Text) : Space (i ++ s) (r ++ s) := by
  induction h with
  | done => exact .done
  | skip hb _ ih => exact .skip hb ih

mutual

/-- A text that spells a tree does so whatever is behind it. -/
theorem Spells.append (hL : L.Extends) (s : Text) {t : Tree} {i r : Text} :
    Spells L t i r → Spells L t (i ++ s) (r ++ s)
  | .string h => .string (hL _ _ _ s h)
  | .number h => by
      rw [List.append_assoc]
      exact .number h
  | .true => .true
  | .false => .false
  | .null => .null
  | .emptyObject h => .emptyObject (h.append s)
  | .object h => .object (h.append hL s)
  | .emptyArray h => .emptyArray (h.append s)
  | .array h => .array (h.append hL s)

theorem SpellsMembers.append (hL : L.Extends) (s : Text) {ms : List (Text × Tree)} {i r : Text} :
    SpellsMembers L ms i r → SpellsMembers L ms (i ++ s) (r ++ s)
  | .last h => .last (h.append hL s)
  | .cons h t => .cons (h.append hL s) (t.append hL s)

theorem SpellsMember.append (hL : L.Extends) (s : Text) {m : Text × Tree} {i r : Text} :
    SpellsMember L m i r → SpellsMember L m (i ++ s) (r ++ s)
  | .mk hi hkey hk h => .mk (hi.append s) (hL _ _ _ s hkey) (hk.append s) (h.append hL s)

theorem SpellsItems.append (hL : L.Extends) (s : Text) {ts : List Tree} {i r : Text} :
    SpellsItems L ts i r → SpellsItems L ts (i ++ s) (r ++ s)
  | .last h => .last (h.append hL s)
  | .cons h hs => .cons (h.append hL s) (hs.append hL s)

theorem SpellsElement.append (hL : L.Extends) (s : Text) {t : Tree} {i r : Text} :
    SpellsElement L t i r → SpellsElement L t (i ++ s) (r ++ s)
  | .mk hi h hk => .mk (hi.append s) (h.append hL s) (hk.append s)

end

section

variable {quote : Text → Text}

/-- A way to write the content of a string that reads back. -/
def Lexis.Quotes (L : Lexis) (quote : Text → Text) : Prop :=
  ∀ content r, L.string content (quote content ++ 0x22 :: r) r

mutual

/-- The compact text of a tree that has a text spells it. -/
theorem Spells.compact (hL : L.Quotes quote) {t : Tree} {i r : Text} (h : Spells L t i r) (s : Text) :
    Spells L t (t.text quote ++ s) s := by
  match h with
  | @Spells.string _ content _ _ _ =>
      have hquoted := Spells.string (hL content s)
      simpa [Tree.text, quoted] using hquoted
  | .number hnumber => exact .number hnumber
  | .true => exact .true
  | .false => exact .false
  | .null => exact .null
  | .emptyObject _ => exact .emptyObject .done
  | .object hms =>
      have hmembers := Spells.object (hms.compact hL s)
      simpa [Tree.text] using hmembers
  | .emptyArray _ => exact .emptyArray .done
  | .array hts =>
      have hitems := Spells.array (hts.compact hL s)
      simpa [Tree.text] using hitems

theorem SpellsMembers.compact (hL : L.Quotes quote) {ms : List (Text × Tree)} {i r : Text}
    (h : SpellsMembers L ms i r) (s : Text) :
    SpellsMembers L ms (membersText quote true ms ++ 0x7d :: s) s := by
  match h with
  | .last hm =>
      have hlast := SpellsMembers.last (hm.compact hL (0x7d :: s))
      simpa [membersText, memberText] using hlast
  | .cons (m := m) hm hms =>
      have hrest := hms.compact hL s
      have hcons := SpellsMembers.cons (hm.compact hL (0x2c :: _)) hrest
      cases hms <;> simpa [membersText, memberText] using hcons

theorem SpellsMember.compact (hL : L.Quotes quote) {m : Text × Tree} {i r : Text}
    (h : SpellsMember L m i r) (s : Text) : SpellsMember L m (memberText quote m ++ s) s := by
  match h with
  | @SpellsMember.mk _ key t _ _ _ _ _ _ _ _ (.mk _ ht _) =>
      have hmember := SpellsMember.mk .done (hL key (0x3a :: (t.text quote ++ s))) .done
        (.mk .done (ht.compact hL s) .done)
      simpa [memberText, quoted] using hmember

theorem SpellsItems.compact (hL : L.Quotes quote) {ts : List Tree} {i r : Text}
    (h : SpellsItems L ts i r) (s : Text) :
    SpellsItems L ts (itemsText quote true ts ++ 0x5d :: s) s := by
  match h with
  | .last (.mk _ ht _) =>
      have hlast := SpellsItems.last (.mk .done (ht.compact hL (0x5d :: s)) .done)
      simpa [itemsText] using hlast
  | .cons (.mk _ ht _) hts =>
      have hrest := hts.compact hL s
      have hcons := SpellsItems.cons (.mk .done (ht.compact hL (0x2c :: _)) .done) hrest
      cases hts <;> simpa [itemsText] using hcons

end

end

end Json

namespace Lonejson

open Json (Text)

theorem StringText.append {content i r : Text} (h : StringText content i r) (s : Text) :
    StringText content (i ++ s) (r ++ s) := by
  induction h with
  | close => exact .close
  | plain hb _ ih => exact .plain hb ih
  | escape he _ ih => exact .escape he ih
  | unit hcp hhigh hlow hdata _ ih => exact .unit hcp hhigh hlow hdata ih
  | pair hhi hhigh hlo hlow hdata _ ih => exact .pair hhi hhigh hlo hlow hdata ih

theorem strictLexis_extends : strictLexis.Extends := fun _ _ _ s h => StringText.append h s

/-- The escape of a control character. -/
theorem hexDigits_decode : ∀ n < 0x20,
    decodeUnicodeQuad 0x30 0x30 (hexDigit (n / 16)) (hexDigit (n % 16)) = some n ∧
      isHighSurrogate n = false ∧ isLowSurrogate n = false ∧
        utf8Encode n = some [n.toUInt8] := by
  decide

theorem StringText.written {content i r : Text} (b : Byte) (h : StringText content i r) :
    StringText (b :: content) (writtenByte b ++ i) r := by
  rw [writtenByte]
  split
  · rename_i hplain
    exact .plain hplain h
  rename_i hplain
  rw [escapeByte]
  split_ifs with h1 h2 h3 h4 h5 h6 h7
  · subst h1
    exact .escape rfl h
  · subst h2
    exact .escape rfl h
  · subst h3
    exact .escape rfl h
  · subst h4
    exact .escape rfl h
  · subst h5
    exact .escape rfl h
  · subst h6
    exact .escape rfl h
  · subst h7
    exact .escape rfl h
  · have hcontrol : b.toNat < 0x20 := by
      have hlow : b < 0x20 := by
        by_contra hlarge
        exact hplain (isPlain_iff.mpr ⟨h1, h2, hlarge⟩)
      exact hlow
    obtain ⟨hcp, hhigh, hlow, hdata⟩ := hexDigits_decode _ hcontrol
    rw [show b.toNat.toUInt8 = b from UInt8.ofNat_toNat] at hdata
    exact .unit hcp hhigh hlow hdata h

/-- The escaped text of a string reads back. -/
theorem strictLexis_quotes : strictLexis.Quotes escapeText := by
  intro content r
  induction content with
  | nil => exact StringText.close
  | cons b content ih =>
      have hwritten := StringText.written b ih
      rw [← List.append_assoc] at hwritten
      exact hwritten

end Lonejson
