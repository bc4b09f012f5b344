import Lonejson.Base64
import Lonejson.StringSinks

/-!
# The decoder of base64 fields

A base64 field is decoded character by character: four registers collect a quartet, and a flag
knows whether there has been padding. It accepts what `lonejson_base64_decode` accepts, though
that one checks the whole text first.
-/

namespace Lonejson

/-! ## Quartets -/

theorem base64Value_standard (ch : Byte) : base64Value ch = base64ValueForVariant ch .standard := by
  rw [base64Value, base64ValueForVariant, if_neg (show ¬ Base64Variant.isUrl .standard by decide)]
  split_ifs <;> first | rfl | simp [Nat.add_comm]

theorem toUInt8_mod {m n : ℕ} (h : m % 256 = n % 256) : m.toUInt8 = n.toUInt8 := by
  apply UInt8.toNat_inj.mp
  simpa using h

/-- The bytes of a quartet, as the field decoder shifts them together. -/
theorem shifted_group {i j k l : ℕ} (hj : j < 64) (hk : k < 64) (hl : l < 64) :
    [((i <<< 2) ||| (j >>> 4)).toUInt8, ((j <<< 4) ||| (k >>> 2)).toUInt8,
      ((k <<< 6) ||| l).toUInt8] = groupBytes i j k l := by
  have hfirst : (i <<< 2) ||| (j >>> 4) = i * 4 + j / 16 := by
    rw [Nat.shiftRight_eq_div_pow, or_shifted (by omega)]
    rfl
  have hsecond : (j <<< 4) ||| (k >>> 2) = j * 16 + k / 4 := by
    rw [Nat.shiftRight_eq_div_pow, or_shifted (by omega)]
    rfl
  have hthird : (k <<< 6) ||| l = k * 64 + l := or_shifted (by omega)
  rw [hfirst, hsecond, hthird, groupBytes,
    toUInt8_mod (by omega : (j * 16 + k / 4) % 256 = (j % 16 * 16 + k / 4) % 256),
    toUInt8_mod (by omega : (k * 64 + l) % 256 = (k % 4 * 64 + l) % 256)]

/-- The quartets that are decoded. -/
inductive QuadReads (a b : Byte) : Byte → Byte → Bytes → Prop where
  | whole {c d : Byte} {i j k l : ℕ} (ha : Stands .standard a i) (hb : Stands .standard b j)
      (hc : Stands .standard c k) (hd : Stands .standard d l) :
      QuadReads a b c d (groupBytes i j k l)
  | two {c : Byte} {i j k : ℕ} (ha : Stands .standard a i) (hb : Stands .standard b j)
      (hc : Stands .standard c k) : QuadReads a b c 0x3d ((groupBytes i j k 0).take 2)
  | one {i j : ℕ} (ha : Stands .standard a i) (hb : Stands .standard b j) :
      QuadReads a b 0x3d 0x3d ((groupBytes i j 0 0).take 1)

theorem stands_standard {ch : Byte} {i : ℕ} : Stands .standard ch i ↔ base64Value ch = some i := by
  rw [base64Value_standard, Stands]

theorem base64DecodeQuad_reads {a b c d : Byte} {out : Bytes} (h : QuadReads a b c d out) :
    base64DecodeQuad [a, b, c, d] = some out := by
  cases h with
  | whole ha hb hc hd =>
      simp only [base64DecodeQuad, stands_standard.mp ha, stands_standard.mp hb,
        stands_standard.mp hc, stands_standard.mp hd, hc.ne_pad, hd.ne_pad, if_false]
      exact congrArg some (shifted_group hb.lt hc.lt hd.lt)
  | two ha hb hc =>
      simp only [base64DecodeQuad, stands_standard.mp ha, stands_standard.mp hb,
        stands_standard.mp hc, hc.ne_pad, if_false, if_true]
      exact congrArg (fun bytes => some (bytes.take 2))
        (shifted_group hb.lt hc.lt (by decide : 0 < 64))
  | one ha hb =>
      simp only [base64DecodeQuad, stands_standard.mp ha, stands_standard.mp hb, if_true]
      exact congrArg (fun bytes => some (bytes.take 1))
        (shifted_group hb.lt (by decide : 0 < 64) (by decide : 0 < 64))

theorem quadReads_of_decode {a b c d : Byte} {out : Bytes}
    (h : base64DecodeQuad [a, b, c, d] = some out) : QuadReads a b c d out := by
  have hstands {ch : Byte} {i : ℕ} (hvalue : base64Value ch = some i) : Stands .standard ch i :=
    stands_standard.mpr hvalue
  have hsame {out' : Bytes} (h' : QuadReads a b c d out') : QuadReads a b c d out := by
    rw [base64DecodeQuad_reads h'] at h
    cases h
    exact h'
  cases ha : base64Value a with
  | none => simp [base64DecodeQuad, ha] at h
  | some i =>
  cases hb : base64Value b with
  | none => simp [base64DecodeQuad, ha, hb] at h
  | some j =>
  by_cases hpad : c = 0x3d
  · subst hpad
    by_cases hd : d = 0x3d
    · subst hd
      exact hsame (.one (hstands ha) (hstands hb))
    · simp [base64DecodeQuad, ha, hb, hd] at h
  cases hc : base64Value c with
  | none => simp [base64DecodeQuad, ha, hb, hpad, hc] at h
  | some k =>
  by_cases hlast : d = 0x3d
  · subst hlast
    exact hsame (.two (hstands ha) (hstands hb) (hstands hc))
  cases hd : base64Value d with
  | none => simp [base64DecodeQuad, ha, hb, hpad, hc, hlast, hd] at h
  | some l => exact hsame (.whole (hstands ha) (hstands hb) (hstands hc) (hstands hd))

/-! ## The registers -/

/-- The registers of the field decoder. -/
structure QuadState where
  quad : Bytes := []
  sawPadding : Bool := false
  deriving DecidableEq, Repr

/-- What a character does to the registers, with the bytes that it completes. -/
def QuadState.next (q : QuadState) (ch : Byte) : Option (QuadState × Bytes) :=
  if ch ≠ 0x3d ∧ base64Value ch = none then none
  else if q.sawPadding ∧ ch ≠ 0x3d then none
  else
    let quad := q.quad ++ [ch]
    let sawPadding := q.sawPadding || ch == 0x3d
    if quad.length = 4 then (base64DecodeQuad quad).map fun out => (⟨[], sawPadding⟩, out)
    else some (⟨quad, sawPadding⟩, [])

/-- The characters of a text, one by one. -/
def QuadState.run : QuadState → Bytes → Option (QuadState × Bytes)
  | q, [] => some (q, [])
  | q, ch :: rest =>
    (q.next ch).bind fun r => (r.1.run rest).map fun r' => (r'.1, r.2 ++ r'.2)

/-- A text that is read to the end: no quartet is left open. -/
def QuadState.Settles (q : QuadState) (text out : Bytes) : Prop :=
  ∃ q', q.run text = some (q', out) ∧ q'.quad = []

/-! ## Turns -/

theorem QuadState.run_append (q : QuadState) (s t : Bytes) :
    q.run (s ++ t) = (q.run s).bind fun r => (r.1.run t).map fun r' => (r'.1, r.2 ++ r'.2) := by
  induction s generalizing q with
  | nil => simp [run]
  | cons ch s ih =>
      rw [List.cons_append, run, run]
      cases q.next ch with
      | none => rfl
      | some r =>
          simp only [Option.bind_some, ih]
          cases r.1.run s with
          | none => rfl
          | some r' => simp [Option.map_map, Function.comp_def]

theorem QuadState.next_some {q q' : QuadState} {ch : Byte} {out : Bytes}
    (h : q.next ch = some (q', out)) :
    (ch = 0x3d ∨ q.sawPadding = false) ∧
      (q.quad.length ≠ 3 ∧ q' = ⟨q.quad ++ [ch], q.sawPadding || ch == 0x3d⟩ ∧ out = [] ∨
        q.quad.length = 3 ∧ q' = ⟨[], q.sawPadding || ch == 0x3d⟩ ∧
          base64DecodeQuad (q.quad ++ [ch]) = some out) := by
  rw [next] at h
  by_cases hvalue : ch ≠ 0x3d ∧ base64Value ch = none
  · rw [if_pos hvalue] at h
    cases h
  by_cases hpadding : q.sawPadding = true ∧ ch ≠ 0x3d
  · rw [if_neg hvalue, if_pos hpadding] at h
    cases h
  rw [if_neg hvalue, if_neg hpadding] at h
  refine ⟨?_, ?_⟩
  · by_contra hno
    push Not at hno
    exact hpadding ⟨by simpa using hno.2, hno.1⟩
  · dsimp only at h
    rw [List.length_append, List.length_singleton] at h
    by_cases hfour : q.quad.length + 1 = 4
    · rw [if_pos hfour] at h
      obtain ⟨out', hdecode, heq⟩ := Option.map_eq_some_iff.mp h
      cases heq
      exact .inr ⟨by omega, rfl, hdecode⟩
    · rw [if_neg hfour] at h
      cases h
      exact .inl ⟨by omega, rfl, rfl⟩

theorem QuadState.next_inside (q : QuadState) {ch : Byte}
    (hch : ch = 0x3d ∨ q.sawPadding = false ∧ base64Value ch ≠ none) (hlength : q.quad.length < 3) :
    q.next ch = some (⟨q.quad ++ [ch], q.sawPadding || ch == 0x3d⟩, []) := by
  have hshort : (q.quad ++ [ch]).length ≠ 4 := by
    rw [List.length_append, List.length_singleton]
    omega
  rw [next, if_neg, if_neg]
  · exact if_neg hshort
  · rintro ⟨hsaw, hne⟩
    simp [(hch.resolve_left hne).1] at hsaw
  · rintro ⟨hne, hnone⟩
    exact (hch.resolve_left hne).2 hnone

theorem QuadState.next_last (q : QuadState) {ch : Byte} {out : Bytes}
    (hch : ch = 0x3d ∨ q.sawPadding = false ∧ base64Value ch ≠ none) (hlength : q.quad.length = 3)
    (hdecode : base64DecodeQuad (q.quad ++ [ch]) = some out) :
    q.next ch = some (⟨[], q.sawPadding || ch == 0x3d⟩, out) := by
  have hfour : (q.quad ++ [ch]).length = 4 := by
    rw [List.length_append, List.length_singleton, hlength]
  rw [next, if_neg, if_neg]
  · dsimp only
    rw [if_pos hfour, hdecode]
    rfl
  · rintro ⟨hsaw, hne⟩
    simp [(hch.resolve_left hne).1] at hsaw
  · rintro ⟨hne, hnone⟩
    exact (hch.resolve_left hne).2 hnone

theorem QuadState.run_cons {q : QuadState} {ch : Byte} {rest : Bytes} {r : QuadState × Bytes}
    (h : q.run (ch :: rest) = some r) :
    ∃ q' out r', q.next ch = some (q', out) ∧ q'.run rest = some r' ∧ r = (r'.1, out ++ r'.2) := by
  rw [run] at h
  obtain ⟨⟨q', out⟩, hnext, hrest⟩ := Option.bind_eq_some_iff.mp h
  obtain ⟨r', hr', rfl⟩ := Option.map_eq_some_iff.mp hrest
  exact ⟨q', out, r', hnext, hr', rfl⟩

/-- Behind a padded quartet no more bytes come, and the next quartet is never full. -/
theorem QuadState.run_padding {k : ℕ} {text : Bytes} {r : QuadState × Bytes}
    (h : run ⟨List.replicate k 0x3d, true⟩ text = some r) :
    r.1.quad = List.replicate (k + text.length) 0x3d ∧ r.2 = [] := by
  induction text generalizing k r with
  | nil =>
      cases h
      exact ⟨rfl, rfl⟩
  | cons ch text ih =>
      obtain ⟨q', out, r', hnext, hrest, rfl⟩ := run_cons h
      obtain ⟨hch, ⟨-, rfl, rfl⟩ | ⟨hthree, -, hdecode⟩⟩ := next_some hnext
      · obtain rfl : ch = 0x3d := hch.resolve_right Bool.noConfusion
        dsimp only at hrest
        rw [← List.replicate_succ', Bool.true_or] at hrest
        obtain ⟨hquad, hout⟩ := ih hrest
        refine ⟨?_, hout⟩
        rw [hquad, List.length_cons, Nat.add_right_comm, Nat.add_assoc]
      · obtain rfl : ch = 0x3d := hch.resolve_right Bool.noConfusion
        obtain rfl : k = 3 := by simpa using hthree
        cases hdecode

/-! ## Texts -/

/-- The first quartet is read by itself. -/
theorem QuadState.run_quartet {a b c d : Byte} {rest : Bytes} {r : QuadState × Bytes}
    (h : run {} (a :: b :: c :: d :: rest) = some r) :
    ∃ out r', QuadReads a b c d out ∧ run ⟨[], c == 0x3d || d == 0x3d⟩ rest = some r' ∧
      r = (r'.1, out ++ r'.2) := by
  obtain ⟨q₁, o₁, r₁, hnext₁, h₁, hr₁⟩ := run_cons h
  obtain ⟨-, ⟨-, rfl, rfl⟩ | ⟨hthree, -⟩⟩ := next_some hnext₁
  swap
  · cases hthree
  obtain ⟨q₂, o₂, r₂, hnext₂, h₂, hr₂⟩ := run_cons h₁
  obtain ⟨-, ⟨-, rfl, rfl⟩ | ⟨hthree, -⟩⟩ := next_some hnext₂
  swap
  · cases hthree
  obtain ⟨q₃, o₃, r₃, hnext₃, h₃, hr₃⟩ := run_cons h₂
  obtain ⟨-, ⟨-, rfl, rfl⟩ | ⟨hthree, -⟩⟩ := next_some hnext₃
  swap
  · cases hthree
  obtain ⟨q₄, o₄, r₄, hnext₄, h₄, hr₄⟩ := run_cons h₃
  obtain ⟨-, ⟨hshort, -⟩ | ⟨-, rfl, hdecode⟩⟩ := next_some hnext₄
  · exact absurd rfl hshort
  have hreads := quadReads_of_decode hdecode
  have hfirst : (a == 0x3d || b == 0x3d) = false := by
    cases hreads with
    | whole ha hb | two ha hb | one ha hb => simp [ha.ne_pad, hb.ne_pad]
  simp only [Bool.false_or, hfirst] at h₄
  exact ⟨o₄, r₄, hreads, h₄, by rw [hr₁, hr₂, hr₃, hr₄]; rfl⟩

/-- The characters that are not yet decoded are those behind the last quartet. -/
theorem QuadState.run_length {q : QuadState} {text : Bytes} {r : QuadState × Bytes}
    (hquad : q.quad.length < 4) (h : q.run text = some r) :
    r.1.quad.length = (q.quad.length + text.length) % 4 := by
  induction text generalizing q r with
  | nil =>
      cases h
      rw [List.length_nil, Nat.add_zero, Nat.mod_eq_of_lt hquad]
  | cons ch text ih =>
      obtain ⟨q', out, r', hnext, hrest, rfl⟩ := run_cons h
      obtain ⟨-, ⟨hshort, rfl, -⟩ | ⟨hthree, rfl, -⟩⟩ := next_some hnext
      · have htail := ih (by rw [List.length_append, List.length_singleton]; omega) hrest
        rw [htail, List.length_append, List.length_singleton, List.length_cons]
        congr 1
        omega
      · rw [ih (by simp) hrest, hthree, List.length_cons, List.length_nil]
        omega

theorem QuadState.Settles.unique {q : QuadState} {text out out' : Bytes} (h : q.Settles text out)
    (h' : q.Settles text out') : out = out' := by
  obtain ⟨r, hrun, -⟩ := h
  obtain ⟨r', hrun', -⟩ := h'
  rw [hrun] at hrun'
  cases hrun'
  rfl

theorem base64Reads_of_settles {text : Bytes} : ∀ {out : Bytes},
    ({} : QuadState).Settles text out → Base64Reads .standard text out := by
  induction text using clearUnused.induct with
  | case1 a b c d rest ih =>
      rintro out ⟨q', hrun, hquad⟩
      obtain ⟨first, ⟨q, tail⟩, hreads, hrest, hr⟩ := QuadState.run_quartet hrun
      obtain ⟨rfl, rfl⟩ := Prod.mk.inj hr
      have hpadded (hpad : (c == 0x3d || d == 0x3d) = true) : rest = [] ∧ tail = [] := by
        rw [hpad] at hrest
        obtain ⟨hends, hnone⟩ := QuadState.run_padding (k := 0) hrest
        rw [Nat.zero_add] at hends
        exact ⟨by simpa using hends.symm.trans hquad, hnone⟩
      cases hreads with
      | whole ha hb hc hd =>
          rw [beq_eq_false_iff_ne.mpr hc.ne_pad, beq_eq_false_iff_ne.mpr hd.ne_pad] at hrest
          exact .quartet ha hb hc hd (ih ⟨q', hrest, hquad⟩)
      | two ha hb hc =>
          obtain ⟨rfl, rfl⟩ := hpadded (by simp)
          rw [List.append_nil]
          exact .paddedTwo rfl ha hb hc
      | one ha hb =>
          obtain ⟨rfl, rfl⟩ := hpadded (by simp)
          rw [List.append_nil]
          exact .paddedOne rfl ha hb
  | case2 a b c =>
      rintro out ⟨q', hrun, hquad⟩
      have hlength := QuadState.run_length (by simp) hrun
      rw [hquad] at hlength
      cases hlength
  | case3 a b =>
      rintro out ⟨q', hrun, hquad⟩
      have hlength := QuadState.run_length (by simp) hrun
      rw [hquad] at hlength
      cases hlength
  | case4 text hfour hthree htwo =>
      rintro out ⟨q', hrun, hquad⟩
      have hlength := QuadState.run_length (by simp) hrun
      rw [hquad] at hlength
      rcases text with _ | ⟨a, _ | ⟨b, _ | ⟨c, _ | ⟨d, text⟩⟩⟩⟩
      · cases hrun
        exact .nil
      · cases hlength
      · exact absurd rfl (htwo _ _)
      · exact absurd rfl (hthree _ _ _)
      · exact absurd rfl (hfour _ _ _ _ _)

theorem settles_quartet {a b c d : Byte} {first : Bytes} (h : QuadReads a b c d first)
    {rest out : Bytes} (hrest : QuadState.Settles ⟨[], c == 0x3d || d == 0x3d⟩ rest out) :
    ({} : QuadState).Settles (a :: b :: c :: d :: rest) (first ++ out) := by
  obtain ⟨q', hrun, hquad⟩ := hrest
  have hvalue {ch : Byte} {i : ℕ} (hch : Stands .standard ch i) : base64Value ch ≠ none := by
    simp [stands_standard.mp hch]
  have hpads : base64Value a ≠ none ∧ base64Value b ≠ none ∧ (a == 0x3d || b == 0x3d) = false ∧
      (c = 0x3d ∨ base64Value c ≠ none) ∧
      (d = 0x3d ∨ (c == 0x3d) = false ∧ base64Value d ≠ none) := by
    cases h with
    | whole ha hb hc hd =>
        exact ⟨hvalue ha, hvalue hb, by simp [ha.ne_pad, hb.ne_pad], .inr (hvalue hc),
          .inr ⟨by simp [hc.ne_pad], hvalue hd⟩⟩
    | two ha hb hc =>
        exact ⟨hvalue ha, hvalue hb, by simp [ha.ne_pad, hb.ne_pad], .inr (hvalue hc), .inl rfl⟩
    | one ha hb =>
        exact ⟨hvalue ha, hvalue hb, by simp [ha.ne_pad, hb.ne_pad], .inl rfl, .inl rfl⟩
  obtain ⟨ha, hb, hfirst, hc, hd⟩ := hpads
  rw [Bool.or_eq_false_iff] at hfirst
  have h₁ := QuadState.next_inside {} (.inr ⟨rfl, ha⟩) (by simp)
  have h₂ := QuadState.next_inside ⟨[a], false⟩ (.inr ⟨rfl, hb⟩) (by simp)
  have h₃ := QuadState.next_inside ⟨[a, b], false⟩ (hc.imp_right fun hc => ⟨rfl, hc⟩) (by simp)
  have h₄ := QuadState.next_last ⟨[a, b, c], c == 0x3d⟩ hd rfl (base64DecodeQuad_reads h)
  simp only [hfirst.1, hfirst.2, Bool.or_false, Bool.false_or, List.nil_append, List.cons_append]
    at h₁ h₂ h₃
  refine ⟨q', ?_, hquad⟩
  simp only [QuadState.run, h₁, h₂, h₃, h₄, hrun, Option.bind_some, Option.map_some,
    List.nil_append]

/-- The registers settle on the texts that the decoder of whole texts accepts, with its output. -/
theorem settles_iff {text out : Bytes} :
    ({} : QuadState).Settles text out ↔ Base64Reads .standard text out := by
  refine ⟨base64Reads_of_settles, fun h => ?_⟩
  have hend (saw : Bool) : QuadState.Settles ⟨[], saw⟩ [] [] := ⟨_, rfl, rfl⟩
  induction h with
  | nil => exact hend false
  | quartet ha hb hc hd hrest ih =>
      apply settles_quartet (.whole ha hb hc hd)
      rw [beq_eq_false_iff_ne.mpr hc.ne_pad, beq_eq_false_iff_ne.mpr hd.ne_pad]
      exact ih
  | paddedTwo hraw ha hb hc =>
      have h := settles_quartet (.two ha hb hc) (hend _)
      rwa [List.append_nil] at h
  | paddedOne hraw ha hb =>
      have h := settles_quartet (.one ha hb) (hend _)
      rwa [List.append_nil] at h
  | rawTwo hraw => cases hraw
  | rawOne hraw => cases hraw

end Lonejson
