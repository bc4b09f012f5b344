import Lonejson.PathWalk
import Lonejson.VisitorSound

/-!
# The visitor comes to an end

The fuel of a visit is enough for every text, so that a visit that stops before its end has
failed: its status is not one to go on with.
-/

namespace Lonejson

open Json (Text Tree Space Spells SpellsMembers SpellsItems bind_eq_ok map_eq_ok)

variable {υ : Type} {env : VisitEnv} {v : Visitor υ} {isKey : Bool} {α β : Type}

/-- A run that does not succeed reports a status of failure. -/
def Firm (x : Except (JsonIo υ) α) : Prop := ∀ io, x = .error io → io.status.soft = false

section

variable {x : Except (JsonIo υ) α} {f : α → Except (JsonIo υ) β}

theorem Firm.ok (a : α) : Firm (.ok a : Except (JsonIo υ) α) := by
  intro io h
  cases h

theorem Firm.fail (io : JsonIo υ) {code : Status} (message : String) (hcode : code.soft = false) :
    Firm (.error (io.fail code message) : Except (JsonIo υ) α) := by
  intro io' h
  cases h
  exact hcode

theorem Firm.overTotal (io : JsonIo υ) : Firm (.error io.overTotal : Except (JsonIo υ) α) :=
  .fail io _ rfl

theorem Firm.bind (hx : Firm x) (hf : ∀ a, x = .ok a → Firm (f a)) : Firm (x.bind f) := by
  cases x with
  | error e =>
      intro io h
      cases h
      exact hx _ rfl
  | ok a => exact hf a rfl

theorem Firm.map {f : α → β} (hx : Firm x) : Firm (x.map f) := by
  cases x with
  | error e =>
      intro io h
      cases h
      exact hx _ rfl
  | ok a => exact .ok (f a)

theorem Firm.ite {p : Prop} [Decidable p] {y : Except (JsonIo υ) α} (hx : p → Firm x)
    (hy : ¬ p → Firm y) : Firm (if p then x else y) := by
  split
  · next h => exact hx h
  · next h => exact hy h

theorem visit_firm (io : JsonIo υ) (event : VisitEvent) : Firm (io.visit v event) := by
  rw [JsonIo.visit]
  dsimp only
  apply Firm.ite
  · intro hsoft
    exact .ok _
  · intro hsoft io' h
    cases h
    simpa using hsoft

end

theorem visitPeek_firm (io : JsonIo υ) (i : Text) : Firm (visitPeek env io i) := by
  induction i with
  | nil => exact .ok _
  | cons b i ih =>
      rw [visitPeek]
      exact .ite (fun _ => .overTotal io) fun _ => .ite (fun _ => ih) fun _ => .ok _

/-! ## Strings -/

theorem visitQuad_firm (message : String) (n cp : ℕ) (i : Text) (io : JsonIo υ) :
    Firm (visitQuad env message n cp i io) := by
  induction n generalizing cp i with
  | zero => exact .ok _
  | succ n ih =>
      cases i with
      | nil => exact .fail io _ rfl
      | cons hx i =>
          rw [visitQuad]
          apply Firm.ite
          · intro hlong
            exact .overTotal io
          · intro hlong
            cases hexValue hx with
            | none => exact .fail io _ rfl
            | some value => exact ih _ _

theorem visitLow_firm (high : ℕ) (i : Text) (io : JsonIo υ) : Firm (visitLow env high i io) := by
  rw [visitLow]
  cases (env.reads 0x5c i).bind (env.reads 0x75) with
  | none => exact .fail io _ rfl
  | some i =>
      apply (visitQuad_firm _ _ _ _ io).bind
      intro x hx
      exact .ite (fun _ => .ok _) fun _ => .fail io _ rfl

theorem visitUnicode_firm (i : Text) (io : JsonIo υ) : Firm (visitUnicode env i io) := by
  apply (visitQuad_firm _ _ _ _ io).bind
  intro x hx
  exact .ite (fun _ => visitLow_firm _ _ io) fun _ => .ite (fun _ => .fail io _ rfl) fun _ => .ok _

theorem deliverEscape_firm (data : Bytes) (decoded : ℕ) (i : Text) (io : JsonIo υ) :
    Firm (deliverEscape env v isKey data decoded i io) :=
  .ite (fun _ => .fail io _ rfl) fun _ => (visit_firm io _).map

theorem visitEscape_firm (decoded : ℕ) (i : Text) (io : JsonIo υ) :
    Firm (visitEscape env v isKey decoded i io) := by
  cases i with
  | nil => exact .fail io _ rfl
  | cons ch i =>
      rw [visitEscape]
      apply Firm.ite
      · intro hlong
        exact .overTotal io
      · intro hlong
        cases simpleEscape ch with
        | some out => exact deliverEscape_firm _ _ _ io
        | none =>
            apply Firm.ite
            · intro hu
              apply (visitUnicode_firm i io).bind
              intro x hx
              cases utf8Encode x.1 with
              | none => exact .fail io _ rfl
              | some data => exact deliverEscape_firm _ _ _ io
            · intro hu
              exact .fail io _ rfl

theorem visitUnicode_length {cp : ℕ} {i r : Text} {io : JsonIo υ}
    (h : visitUnicode env i io = .ok (cp, r)) : r.length ≤ i.length := by
  obtain ⟨⟨unit, s⟩, hquad, hunicode⟩ := bind_eq_ok h
  obtain ⟨a, b, c, d, rfl, -⟩ := visitQuad_four hquad
  simp only [List.length_cons]
  split at hunicode
  · obtain ⟨a', b', c', d', low, rfl, -⟩ := visitLow_ok hunicode
    simp only [List.length_cons]
    omega
  · split at hunicode
    · cases hunicode
    · cases hunicode
      omega

/-- An escape takes at least its letter. -/
theorem visitEscape_shorter {decoded decoded' : ℕ} {i r : Text} {io io' : JsonIo υ}
    (h : visitEscape env v isKey decoded i io = .ok (r, decoded', io')) :
    r.length < i.length := by
  cases i with
  | nil => cases h
  | cons ch i =>
      rw [visitEscape] at h
      split at h
      · cases h
      cases hsimple : simpleEscape ch with
      | some out =>
          rw [hsimple] at h
          obtain ⟨rfl, -⟩ := deliverEscape_ok h
          exact Nat.lt_succ_self _
      | none =>
          rw [hsimple] at h
          dsimp only at h
          split at h
          · obtain ⟨⟨cp, s⟩, hcp, hdeliver⟩ := bind_eq_ok h
            have hlength : s.length ≤ i.length := visitUnicode_length hcp
            dsimp only at hdeliver
            cases hdata : utf8Encode cp with
            | none =>
                rw [hdata] at hdeliver
                cases hdeliver
            | some data =>
                rw [hdata] at hdeliver
                obtain ⟨rfl, -⟩ := deliverEscape_ok hdeliver
                exact Nat.lt_succ_of_le hlength
          · cases h

/-- An empty chunk fits into the buffer. -/
theorem noPlain_room : ([] : Bytes).length < 256 := by
  simp

theorem fillPlain_firm {n : ℕ} {plain data : Bytes} (hn : data.length < n)
    (hplain : plain.length < 256) (io : JsonIo υ) :
    Firm (fillPlain v isKey n plain data io) := by
  induction n generalizing plain data io with
  | zero => omega
  | succ n ih =>
      rw [fillPlain]
      apply Firm.ite
      · intro hdata
        exact .ok _
      intro hdata
      have hpos := List.length_pos_iff.mpr hdata
      have hshort : (data.drop (256 - plain.length)).length < n := by
        rw [List.length_drop]
        omega
      dsimp only
      apply Firm.ite
      · intro hfull
        apply (visit_firm io _).bind
        intro io' hio'
        exact ih hshort noPlain_room io'
      · intro hfull
        apply ih hshort
        rw [List.length_append, List.length_take] at hfull ⊢
        omega

theorem visitPlainChunk_firm {left decoded : ℕ} {span plain : Bytes} (hplain : plain.length < 256)
    (io : JsonIo υ) : Firm (visitPlainChunk env v isKey left span plain decoded io) := by
  refine .ite (fun _ => .ok _) fun _ => .ite (fun _ => .overTotal io) fun _ =>
    .ite (fun _ => .fail io _ rfl) fun _ => .ite (fun _ => (visit_firm io _).map) fun _ => ?_
  exact fillPlain_firm (Nat.lt_succ_self _) hplain io

/-- The plain bytes that are left of a chunk fit into the buffer. -/
theorem fillPlain_room {n : ℕ} {plain data plain' : Bytes} {io io' : JsonIo υ}
    (hplain : plain.length < 256) (h : fillPlain v isKey n plain data io = .ok (plain', io')) :
    plain'.length < 256 := by
  induction n generalizing plain data io with
  | zero => cases h
  | succ n ih =>
      rw [fillPlain] at h
      split at h
      · cases h
        exact hplain
      dsimp only at h
      split at h
      · obtain ⟨io₁, -, hrest⟩ := bind_eq_ok h
        exact ih noPlain_room hrest
      · next hfull =>
          apply ih _ h
          rw [List.length_append, List.length_take] at hfull ⊢
          omega

theorem visitPlainChunk_room {left decoded : ℕ} {span plain plain' : Bytes} {io io' : JsonIo υ}
    (hplain : plain.length < 256)
    (h : visitPlainChunk env v isKey left span plain decoded io = .ok (plain', io')) :
    plain'.length < 256 := by
  rw [visitPlainChunk] at h
  split at h
  · cases h
    exact hplain
  split at h
  · cases h
  split at h
  · cases h
  split at h
  · obtain ⟨io₁, -, hrest⟩ := map_eq_ok h
    cases hrest
    exact noPlain_room
  · exact fillPlain_room hplain h

theorem flushPlain_firm (plain : Bytes) (io : JsonIo υ) : Firm (flushPlain v isKey plain io) :=
  .ite (fun _ => .ok _) fun _ => visit_firm io _

theorem visitTextByte_firm
    {loop : Text → Bytes → ℕ → JsonIo υ → Except (JsonIo υ) (Text × JsonIo υ)} {i : Text}
    (hloop : ∀ j plain decoded io, j.length < i.length → plain.length < 256 →
      Firm (loop j plain decoded io))
    {plain : Bytes} (hplain : plain.length < 256) (decoded : ℕ) (io : JsonIo υ) :
    Firm (visitTextByte env v isKey loop decoded i plain io) := by
  cases i with
  | nil => exact .fail io _ rfl
  | cons ch i =>
      rw [visitTextByte]
      refine .ite (fun _ => .overTotal io) fun _ => .ite (fun _ => ?_) fun _ =>
        .ite (fun _ => .fail io _ rfl) fun _ => .ite (fun _ => ?_) fun _ => ?_
      · apply (flushPlain_firm _ io).bind
        intro io' hio'
        exact (visit_firm io' _).map
      · refine .ite (fun _ => .fail io _ rfl) fun _ => .ite (fun _ => ?_) fun hfull => ?_
        · apply (visit_firm io _).bind
          intro io' hio'
          exact hloop _ _ _ _ (Nat.lt_succ_self _) noPlain_room
        · apply hloop _ _ _ _ (Nat.lt_succ_self _)
          rw [List.length_append, List.length_singleton] at hfull ⊢
          omega
      · apply (flushPlain_firm _ io).bind
        intro io' hio'
        apply (visitEscape_firm _ _ io').bind
        rintro ⟨j, decoded', io''⟩ hescape
        exact hloop _ _ _ _ ((visitEscape_shorter hescape).trans (Nat.lt_succ_self _))
          noPlain_room

theorem visitText_firm {n : ℕ} {i : Text} (hn : i.length < n) {plain : Bytes}
    (hplain : plain.length < 256) (decoded : ℕ) (io : JsonIo υ) :
    Firm (visitText env v isKey n i plain decoded io) := by
  induction n generalizing i plain decoded io with
  | zero => omega
  | succ n ih =>
      rw [visitText]
      apply (visitPlainChunk_firm hplain io).bind
      rintro ⟨plain', io'⟩ hchunk
      apply visitTextByte_firm _ (visitPlainChunk_room hplain hchunk)
      intro j plain'' decoded' io'' hj hplain''
      rw [List.length_drop] at hj
      exact ih (by omega) hplain'' _ _

theorem visitString_firm (i : Text) (io : JsonIo υ) : Firm (visitString env v isKey i io) := by
  apply (visit_firm io _).bind
  intro io' hio'
  exact visitText_firm (Nat.lt_succ_self _) noPlain_room _ _

/-! ## Numbers and literals -/

theorem visitDigits_firm (buffer : Bytes) (i : Text) (io : JsonIo υ) :
    Firm (visitDigits env io buffer i) := by
  induction i generalizing buffer with
  | nil => exact .ok _
  | cons ch i ih =>
      rw [visitDigits]
      exact .ite (fun _ => .ite (fun _ => .overTotal io) fun _ =>
        .ite (fun _ => .fail io _ rfl) fun _ => ih _) fun _ => .ok _

theorem visitNumber_firm (first : Byte) (i : Text) (io : JsonIo υ) :
    Firm (visitNumber env v first i io) := by
  apply (visit_firm io _).bind
  intro io' hio'
  refine .ite (fun _ => .fail io' _ rfl) fun _ => ?_
  apply (visitDigits_firm _ _ io').bind
  intro x hx
  refine .ite (fun _ => ?_) fun _ => .fail io' _ rfl
  apply (visit_firm io' _).bind
  intro io'' hio''
  exact (visit_firm io'' _).map

theorem visitLiteral_firm (event : VisitEvent) (rest i : Text) (io : JsonIo υ) :
    Firm (visitLiteral env v event rest i io) := by
  induction rest generalizing i with
  | nil => exact (visit_firm io _).map
  | cons c rest ih =>
      cases i with
      | nil => exact .fail io _ rfl
      | cons ch i =>
          rw [visitLiteral]
          exact .ite (fun _ => .overTotal io) fun _ =>
            .ite (fun _ => ih i) fun _ => .fail io _ rfl

/-! ## Values -/

theorem visitColon_firm (i : Text) (io : JsonIo υ) : Firm (visitColon env i io) := by
  rw [visitColon]
  split
  · exact .ok _
  · exact .fail io _ rfl

theorem visitKey_firm (i : Text) (io : JsonIo υ) : Firm (visitKey env v i io) := by
  rw [visitKey]
  split
  · next j hpeek =>
      apply (visitString_firm _ io).bind
      intro x hx
      exact visitColon_firm _ _
  · exact .fail io _ rfl

theorem visitKey_length {i r : Text} {io io' : JsonIo υ}
    (h : visitKey env v i io = .ok (r, io')) : r.length < i.length := by
  obtain ⟨key, k, l, hk, hkey, hl, -⟩ := visitKey_ok h
  have hquote := hk.length
  have hstring := hkey.length
  have hcolon := hl.length
  simp only [List.length_cons] at hquote hcolon
  omega

theorem visitValue_length {n depth : ℕ} {i r : Text} {io io' : JsonIo υ}
    (h : visitValue env v n depth i io = .ok (r, io')) : r.length < i.length := by
  obtain ⟨t, j, hspace, ht, -⟩ := (visitor_reads env v n).1 h
  exact (ht.length strictLexis_lawful).trans_le hspace.length

theorem visitPeek_shorter {i r : Text} {io : JsonIo υ} (h : visitPeek env io i = .ok r) :
    r.length ≤ i.length :=
  (visitPeek_ok h).1.length

theorem visitMembers_firm {n : ℕ}
    (hvalue : ∀ {depth i} (io : JsonIo υ), 2 * i.length < n →
      Firm (visitValue env v n depth i io))
    (hmembers : ∀ {depth first i} (io : JsonIo υ), 2 * i.length + 1 < n →
      Firm (visitMembers env v n depth first i io))
    {depth : ℕ} {first : Bool} {i : Text} (hi : 2 * i.length + 1 < n + 1) (io : JsonIo υ) :
    Firm (visitMembers env v (n + 1) depth first i io) := by
  rw [visitMembers]
  apply (visitPeek_firm io i).bind
  intro j hpeek
  have hj := visitPeek_shorter hpeek
  cases j with
  | nil => exact .fail io _ rfl
  | cons ch j =>
      rw [List.length_cons] at hj
      refine .ite (fun _ => (visit_firm io _).map) fun _ => .ite (fun _ => .fail io _ rfl) fun _ => ?_
      apply (visitKey_firm _ io).bind
      rintro ⟨k, io₁⟩ hkey
      have hk : k.length < i.length := by
        have hshort := visitKey_length hkey
        split at hshort
        · exact hshort.trans_le hj
        · omega
      apply (hvalue io₁ (by dsimp only; omega)).bind
      rintro ⟨r, io₂⟩ hchild
      have hr := visitValue_length hchild
      dsimp only at hr
      exact hmembers io₂ (by dsimp only; omega)

theorem visitItems_firm {n : ℕ}
    (hvalue : ∀ {depth i} (io : JsonIo υ), 2 * i.length < n →
      Firm (visitValue env v n depth i io))
    (hitems : ∀ {depth first i} (io : JsonIo υ), 2 * i.length + 1 < n →
      Firm (visitItems env v n depth first i io))
    {depth : ℕ} {first : Bool} {i : Text} (hi : 2 * i.length + 1 < n + 1) (io : JsonIo υ) :
    Firm (visitItems env v (n + 1) depth first i io) := by
  rw [visitItems]
  apply (visitPeek_firm io i).bind
  intro j hpeek
  have hj := visitPeek_shorter hpeek
  cases j with
  | nil => exact .fail io _ rfl
  | cons ch j =>
      rw [List.length_cons] at hj
      refine .ite (fun _ => (visit_firm io _).map) fun _ => .ite (fun _ => .fail io _ rfl) fun _ => ?_
      obtain ⟨k, hk⟩ : ∃ k, k = if first then ch :: j else j := ⟨_, rfl⟩
      have hlength : k.length ≤ j.length + 1 := by
        rw [hk]
        split
        · exact le_rfl
        · exact Nat.le_succ _
      rw [← hk]
      apply (hvalue io (by omega)).bind
      rintro ⟨r, io₁⟩ hchild
      have hr := visitValue_length hchild
      exact hitems io₁ (by dsimp only; omega)

theorem visitValue_firm_step {n : ℕ}
    (hmembers : ∀ {depth first i} (io : JsonIo υ), 2 * i.length + 1 < n →
      Firm (visitMembers env v n depth first i io))
    (hitems : ∀ {depth first i} (io : JsonIo υ), 2 * i.length + 1 < n →
      Firm (visitItems env v n depth first i io))
    {depth : ℕ} {i : Text} (hi : 2 * i.length < n + 1) (io : JsonIo υ) :
    Firm (visitValue env v (n + 1) depth i io) := by
  rw [visitValue]
  apply (visitPeek_firm io i).bind
  intro j hpeek
  have hj := visitPeek_shorter hpeek
  cases j with
  | nil => exact .fail io _ rfl
  | cons ch j =>
      rw [List.length_cons] at hj
      refine .ite (fun _ => visitString_firm j io) fun _ =>
        .ite (fun _ => .ite (fun _ => .fail io _ rfl) fun _ => ?_) fun _ =>
        .ite (fun _ => .ite (fun _ => .fail io _ rfl) fun _ => ?_) fun _ =>
        .ite (fun _ => visitLiteral_firm _ _ j io) fun _ =>
        .ite (fun _ => visitLiteral_firm _ _ j io) fun _ =>
        .ite (fun _ => visitLiteral_firm _ _ j io) fun _ =>
        .ite (fun _ => visitNumber_firm ch j io) fun _ => .fail io _ rfl
      · apply (visit_firm io _).bind
        intro io' hio'
        exact hmembers io' (by omega)
      · apply (visit_firm io _).bind
        intro io' hio'
        exact hitems io' (by omega)

/-- A visit with enough fuel for its text fails with a status of failure, if it fails. -/
theorem visitor_firm (env : VisitEnv) (v : Visitor υ) (n : ℕ) :
    (∀ {depth i} (io : JsonIo υ), 2 * i.length < n → Firm (visitValue env v n depth i io)) ∧
    (∀ {depth first i} (io : JsonIo υ), 2 * i.length + 1 < n →
      Firm (visitMembers env v n depth first i io)) ∧
    ∀ {depth first i} (io : JsonIo υ), 2 * i.length + 1 < n →
      Firm (visitItems env v n depth first i io) := by
  induction n with
  | zero =>
      refine ⟨fun _ hn => ?_, fun _ hn => ?_, fun _ hn => ?_⟩
      · omega
      · omega
      · omega
  | succ n ih =>
      obtain ⟨hvalue, hmembers, hitems⟩ := ih
      exact ⟨fun io hi => visitValue_firm_step hmembers hitems hi io,
        fun io hi => visitMembers_firm hvalue hmembers hi io,
        fun io hi => visitItems_firm hvalue hitems hi io⟩

/-! ## The last byte counts -/

/-- The bytes in front of `r` are not too many. -/
def Counted (env : VisitEnv) (r : Text) : Prop := env.tooLong r.length = false

variable {io io' : JsonIo υ}

theorem visitPeek_counted {b : Byte} {i r : Text} (h : visitPeek env io i = .ok (b :: r)) :
    Counted env r := by
  induction i with
  | nil => cases h
  | cons c i ih =>
      rw [visitPeek] at h
      split at h
      · cases h
      next hlong =>
      split at h
      · exact ih h
      · cases h
        exact Bool.eq_false_iff.mpr hlong

theorem visitTextByte_counted
    {loop : Text → Bytes → ℕ → JsonIo υ → Except (JsonIo υ) (Text × JsonIo υ)}
    (hloop : ∀ {i r plain decoded} {io io' : JsonIo υ},
      loop i plain decoded io = .ok (r, io') → Counted env r)
    {i r : Text} {plain : Bytes} {decoded : ℕ}
    (h : visitTextByte env v isKey loop decoded i plain io = .ok (r, io')) : Counted env r := by
  cases i with
  | nil => cases h
  | cons ch i =>
      rw [visitTextByte] at h
      split at h
      · cases h
      next hlong =>
      split at h
      · obtain ⟨io₁, -, hclose⟩ := bind_eq_ok h
        obtain ⟨io₂, -, hend⟩ := map_eq_ok hclose
        cases hend
        exact Bool.eq_false_iff.mpr hlong
      split at h
      · cases h
      split at h
      · dsimp only at h
        split at h
        · cases h
        split at h
        · obtain ⟨io₁, -, hrest⟩ := bind_eq_ok h
          exact hloop hrest
        · exact hloop h
      · obtain ⟨io₁, -, hrest⟩ := bind_eq_ok h
        obtain ⟨x, -, hmore⟩ := bind_eq_ok hrest
        exact hloop hmore

theorem visitText_counted {n : ℕ} {i r : Text} {plain : Bytes} {decoded : ℕ}
    (h : visitText env v isKey n i plain decoded io = .ok (r, io')) : Counted env r := by
  induction n generalizing i r plain decoded io io' with
  | zero => cases h
  | succ n ih =>
      obtain ⟨x, -, hbyte⟩ := bind_eq_ok h
      exact visitTextByte_counted (fun hloop => ih hloop) hbyte

theorem visitString_counted {i r : Text} (h : visitString env v isKey i io = .ok (r, io')) :
    Counted env r := by
  obtain ⟨io₁, -, htext⟩ := bind_eq_ok h
  exact visitText_counted htext

theorem visitDigits_counted {buffer num : Bytes} {i r : Text} (hi : Counted env i)
    (h : visitDigits env io buffer i = .ok (num, r)) : Counted env r := by
  induction i generalizing buffer with
  | nil =>
      cases h
      exact hi
  | cons ch i ih =>
      rw [visitDigits] at h
      split at h
      · split at h
        · cases h
        next hlong =>
        split at h
        · cases h
        · exact ih (Bool.eq_false_iff.mpr hlong) h
      · cases h
        exact hi

theorem visitNumber_counted {first : Byte} {i r : Text} (hi : Counted env i)
    (h : visitNumber env v first i io = .ok (r, io')) : Counted env r := by
  obtain ⟨io₁, -, hnumber⟩ := bind_eq_ok h
  split at hnumber
  · cases hnumber
  obtain ⟨⟨num, s⟩, hdigits, hnumber⟩ := bind_eq_ok hnumber
  split at hnumber
  · obtain ⟨io₂, -, hend⟩ := bind_eq_ok hnumber
    obtain ⟨io₃, -, hr⟩ := map_eq_ok hend
    cases hr
    exact visitDigits_counted hi hdigits
  · cases hnumber

theorem visitLiteral_counted {event : VisitEvent} {rest i r : Text} (hi : Counted env i)
    (h : visitLiteral env v event rest i io = .ok (r, io')) : Counted env r := by
  induction rest generalizing i with
  | nil =>
      obtain ⟨io₁, -, hr⟩ := map_eq_ok h
      cases hr
      exact hi
  | cons c rest ih =>
      cases i with
      | nil => cases h
      | cons ch i =>
          rw [visitLiteral] at h
          split at h
          · cases h
          next hlong =>
          split at h
          · exact ih (Bool.eq_false_iff.mpr hlong) h
          · cases h

/-- A container that has been visited has been counted, if what is inside it only ends where
the loop over it ends. -/
theorem visitMembers_counted {n depth : ℕ} {first : Bool} {i r : Text}
    (h : visitMembers env v n depth first i io = .ok (r, io')) : Counted env r := by
  induction n generalizing first i io with
  | zero => cases h
  | succ n ih =>
      rw [visitMembers] at h
      obtain ⟨j, hpeek, hbody⟩ := bind_eq_ok h
      cases j with
      | nil => cases hbody
      | cons ch j =>
          dsimp only at hbody
          split at hbody
          · obtain ⟨io₁, -, hend⟩ := map_eq_ok hbody
            cases hend
            exact visitPeek_counted hpeek
          split at hbody
          · cases hbody
          obtain ⟨x, -, hbody⟩ := bind_eq_ok hbody
          obtain ⟨y, -, hrest⟩ := bind_eq_ok hbody
          exact ih hrest

theorem visitItems_counted {n depth : ℕ} {first : Bool} {i r : Text}
    (h : visitItems env v n depth first i io = .ok (r, io')) : Counted env r := by
  induction n generalizing first i io with
  | zero => cases h
  | succ n ih =>
      rw [visitItems] at h
      obtain ⟨j, hpeek, hbody⟩ := bind_eq_ok h
      cases j with
      | nil => cases hbody
      | cons ch j =>
          dsimp only at hbody
          split at hbody
          · obtain ⟨io₁, -, hend⟩ := map_eq_ok hbody
            cases hend
            exact visitPeek_counted hpeek
          split at hbody
          · cases hbody
          obtain ⟨y, -, hrest⟩ := bind_eq_ok hbody
          exact ih hrest

theorem visitValue_counted {n depth : ℕ} {i r : Text}
    (h : visitValue env v n depth i io = .ok (r, io')) : Counted env r := by
  cases n with
  | zero => cases h
  | succ n =>
      rw [visitValue] at h
      obtain ⟨j, hpeek, hbody⟩ := bind_eq_ok h
      cases j with
      | nil => cases hbody
      | cons ch j =>
          have hj := visitPeek_counted hpeek
          dsimp only at hbody
          split at hbody
          · exact visitString_counted hbody
          split at hbody
          · split at hbody
            · cases hbody
            · obtain ⟨io₁, -, hmembers⟩ := bind_eq_ok hbody
              exact visitMembers_counted hmembers
          split at hbody
          · split at hbody
            · cases hbody
            · obtain ⟨io₁, -, hitems⟩ := bind_eq_ok hbody
              exact visitItems_counted hitems
          split at hbody
          · exact visitLiteral_counted hj hbody
          split at hbody
          · exact visitLiteral_counted hj hbody
          split at hbody
          · exact visitLiteral_counted hj hbody
          split at hbody
          · exact visitNumber_counted hj hbody
          · cases hbody

/-- Blanks up to the end of the text. -/
theorem visitPeek_nil {i : Text} (hi : Counted env i) (h : visitPeek env io i = .ok []) :
    Space i [] ∧ Counted env [] := by
  refine ⟨(visitPeek_ok h).1, ?_⟩
  induction i with
  | nil => exact hi
  | cons b i ih =>
      rw [visitPeek] at h
      split at h
      · cases h
      next hlong =>
      split at h
      · exact ih (Bool.eq_false_iff.mpr hlong) h
      · cases h

/-! ## The bytes of a tree -/

mutual

/-- Bytes that the text of a tree has at least. -/
def treeBytes : Tree → ℕ
  | .number lexeme => lexeme.length
  | .string content => content.length + 1
  | .array ts => itemsBytes ts + 1
  | .object ms => membersBytes ms + 1
  | _ => 1

def itemsBytes : List Tree → ℕ
  | [] => 0
  | t :: ts => treeBytes t + 1 + itemsBytes ts

def membersBytes : List (Text × Tree) → ℕ
  | [] => 0
  | (_, t) :: ms => treeBytes t + membersBytes ms

end

theorem StringText.content_length {content i r : Text} (h : StringText content i r) :
    content.length + r.length < i.length := by
  induction h with
  | close => simp
  | plain _ _ ih | escape _ _ ih =>
      simp only [List.length_cons]
      omega
  | unit _ _ _ hdata _ ih | pair _ _ _ _ hdata _ ih =>
      have hlength := utf8Encode_length hdata
      simp only [List.length_cons, List.length_append]
      omega

mutual

theorem spells_bytes {t : Tree} {i r : Text} (h : Spells strictLexis t i r) :
    treeBytes t + r.length ≤ i.length := by
  match h with
  | .string h =>
      have := StringText.content_length h
      simp only [treeBytes, List.length_cons]
      omega
  | .number h =>
      simp only [treeBytes, List.length_append, le_refl]
  | .true | .false | .null =>
      simp only [treeBytes, Json.trueText, Json.falseText, Json.nullText, List.length_append,
        List.length_cons]
      omega
  | .emptyObject h =>
      have := h.length
      simp only [treeBytes, membersBytes, List.length_cons] at *
      omega
  | .object h =>
      have := spellsMembers_bytes h
      simp only [treeBytes, List.length_cons]
      omega
  | .emptyArray h =>
      have := h.length
      simp only [treeBytes, itemsBytes, List.length_cons] at *
      omega
  | .array h =>
      have := spellsItems_bytes h
      simp only [treeBytes, List.length_cons]
      omega

theorem spellsMembers_bytes {ms : List (Text × Tree)} {i r : Text}
    (h : SpellsMembers strictLexis ms i r) : membersBytes ms + r.length ≤ i.length := by
  match h with
  | .last (.mk hi hkey hk (.mk hj ht hl)) =>
      have := memberLength hi (StringText.length hkey) hk hj
      have := spells_bytes ht
      have := hl.length
      simp only [membersBytes, List.length_cons] at *
      omega
  | .cons (.mk hi hkey hk (.mk hj ht hl)) hms =>
      have := memberLength hi (StringText.length hkey) hk hj
      have := spells_bytes ht
      have := hl.length
      have := spellsMembers_bytes hms
      simp only [membersBytes, List.length_cons] at *
      omega

theorem spellsItems_bytes {ts : List Tree} {i r : Text} (h : SpellsItems strictLexis ts i r) :
    itemsBytes ts + r.length ≤ i.length := by
  match h with
  | .last (.mk hj ht hl) =>
      have := hj.length
      have := spells_bytes ht
      have := hl.length
      simp only [itemsBytes, List.length_cons] at *
      omega
  | .cons (.mk hj ht hl) hts =>
      have := hj.length
      have := spells_bytes ht
      have := hl.length
      have := spellsItems_bytes hts
      simp only [itemsBytes, List.length_cons] at *
      omega

end

/-! ## Whole visits -/

/-- What a visit accepts: a value within the limits and blanks around it. -/
def ReadsText (limits : ValueLimits) (t : Tree) (text : Text) : Prop :=
  t.SpelledBy strictLexis text ∧ treeWithin limits 0 t = true ∧
    (limits.maxTotalBytes = 0 ∨ text.length ≤ limits.maxTotalBytes)

theorem counted_nil {text : Text} (hlength : env.length = text.length) (h : Counted env []) :
    env.limits.maxTotalBytes = 0 ∨ text.length ≤ env.limits.maxTotalBytes := by
  rw [Counted, VisitEnv.tooLong, hlength] at h
  simpa [imp_iff_not_or] using h

theorem roomy_of_total {text : Text} (hlength : env.length = text.length)
    (h : env.limits.maxTotalBytes = 0 ∨ text.length ≤ env.limits.maxTotalBytes) : env.Roomy := by
  intro left
  rw [VisitEnv.tooLong, hlength]
  rcases h with h | h
  · simp [h]
  · simp only [Bool.and_eq_false_iff, decide_eq_false_iff_not]
    exact .inr (by omega)

theorem ReadsText.bytes {limits : ValueLimits} {t : Tree} {text : Text}
    (h : ReadsText limits t text) : treeBytes t ≤ text.length := by
  obtain ⟨⟨hi, ht, -⟩, -⟩ := h
  have := hi.length
  have := spells_bytes ht
  omega

/-- A visit that does not report a failure has read a text within the limits. -/
theorem jsonVisit_reads {text : Text} (hlength : env.length = text.length)
    (h : (jsonVisit env v text io).status.soft = true) : ∃ t, ReadsText env.limits t text := by
  rw [jsonVisit] at h
  cases hvalue : visitValue env v (2 * text.length + 2) 0 text io with
  | error io' =>
      rw [hvalue] at h
      have hfirm := (visitor_firm env v _).1 io (Nat.lt_add_of_pos_right Nat.two_pos) io' hvalue
      exact absurd (h.symm.trans hfirm) (by simp)
  | ok x =>
      obtain ⟨rest, io'⟩ := x
      rw [hvalue] at h
      dsimp only at h
      split at h
      · next hpeek =>
          obtain ⟨t, j, hspace, ht, hwithin⟩ := (visitor_reads env v _).1 hvalue
          obtain ⟨hend, hcounted⟩ := visitPeek_nil (visitValue_counted hvalue) hpeek
          exact ⟨t, ⟨hspace, ht, hend⟩, hwithin, counted_nil hlength hcounted⟩
      · cases h

/-- The visit of a text within the limits makes the callbacks of a tree. -/
theorem jsonVisit_feeds (v : Visitor υ) {text : Text} (hlength : env.length = text.length)
    {t : Tree} (h : ReadsText env.limits t text) :
    ∃ es, EventsOf env.limits.maxNumberBytes t es ∧ ∀ io, jsonVisit env v text io =
      match io.feed v es with
      | .ok io => io
      | .error io => io :=
  jsonVisit_spelled v (roomy_of_total hlength h.2.2) h.1 h.2.1

end Lonejson
