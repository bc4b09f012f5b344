import Mathlib

/-!
# Texts that are pulled

A producer makes a step at a time and leaves in its state what is pending. A read of some
capacity flushes what is pending and makes steps until it is full, or until the producer
has finished. The text that a producer prints is cut into pieces by the capacities alone.
-/

namespace Pull

variable {S ε : Type}

/-- What a step leads to. -/
inductive Outcome (S ε : Type) where
  | next (s : S)
  | finish (s : S)
  | fail (s : S) (e : ε)

structure Producer (S ε : Type) where
  pending : S → List UInt8
  /-- The state with another pending text. -/
  flush : S → List UInt8 → S
  step : S → Outcome S ε
  ended : S → Bool

structure Producer.Lawful (P : Producer S ε) : Prop where
  pending_flush : ∀ s p, P.pending (P.flush s p) = p
  flush_flush : ∀ s p q, P.flush (P.flush s p) q = P.flush s q
  flush_pending : ∀ s, P.flush s (P.pending s) = s

/-- The result of a read. -/
structure Read (S ε : Type) where
  state : S
  bytes : List UInt8
  error : Option ε

variable (P : Producer S ε)

def Read.prepend (bytes : List UInt8) (r : Read S ε) : Read S ε :=
  { r with bytes := bytes ++ r.bytes }

/-- A read into a buffer with some room. -/
def Producer.read : ℕ → ℕ → S → Option (Read S ε)
  | 0, _, _ => none
  | n + 1, room, s =>
    if room = 0 then some ⟨s, [], none⟩
    else
      let took := (P.pending s).take room
      let s := P.flush s ((P.pending s).drop room)
      if P.pending s ≠ [] ∨ took.length = room then some ⟨s, took, none⟩
      else
        match P.step s with
        | .next s => (Producer.read n (room - took.length) s).map (Read.prepend took)
        | .finish s => some ⟨s, took, none⟩
        | .fail s e => some ⟨s, took, some e⟩

/-- There is nothing more to read. -/
def Producer.eof (s : S) : Bool := P.ended s && (P.pending s).isEmpty

/-- The producer has finished, and finishes again. -/
structure Producer.Rests (s : S) : Prop where
  eof : P.eof s = true
  again : P.step s = .finish s

/-- The text that is printed from a state on, in up to some number of steps, and the error behind
it: what is pending, and what the steps behind it leave. -/
inductive Producer.Prints : ℕ → S → List UInt8 → Option ε → Prop where
  | finish {n : ℕ} {s s' : S} (h : P.step (P.flush s []) = .finish s') (hs : P.Rests s') :
      Prints n s (P.pending s) none
  | fail {n : ℕ} {s s' : S} {e : ε} (h : P.step (P.flush s []) = .fail s' e) :
      Prints n s (P.pending s) (some e)
  | step {n : ℕ} {s s' : S} {text : List UInt8} {e : Option ε}
      (h : P.step (P.flush s []) = .next s') (hended : P.ended (P.flush s []) = false)
      (hs : Prints n s' text e) : Prints (n + 1) s (P.pending s ++ text) e

variable {P}

theorem Producer.Prints.mono {n m : ℕ} {s : S} {text : List UInt8} {e : Option ε}
    (h : P.Prints n s text e) (hn : n ≤ m) : P.Prints m s text e := by
  induction h generalizing m with
  | finish h hs => exact .finish h hs
  | fail h => exact .fail h
  | step h hended _ ih =>
      obtain ⟨m, rfl⟩ : ∃ k, m = k + 1 := ⟨m - 1, by omega⟩
      exact .step h hended (ih (by omega))

/-- A part of what is pending is flushed. -/
theorem Producer.Prints.drop (hP : P.Lawful) {n : ℕ} {s : S} {text : List UInt8} {e : Option ε}
    (h : P.Prints n s text e) {k : ℕ} (hk : k ≤ (P.pending s).length) :
    P.Prints n (P.flush s ((P.pending s).drop k)) (text.drop k) e := by
  have hpending := hP.pending_flush s ((P.pending s).drop k)
  have hflush := hP.flush_flush s ((P.pending s).drop k) []
  cases h with
  | finish h hs =>
      have hfinish : P.Prints n (P.flush s ((P.pending s).drop k)) _ none :=
        .finish (by rwa [hflush]) hs
      rwa [hpending] at hfinish
  | fail h =>
      have hfail : P.Prints n (P.flush s ((P.pending s).drop k)) _ _ := .fail (by rwa [hflush])
      rwa [hpending] at hfail
  | step h hended hs =>
      have hstep : P.Prints _ (P.flush s ((P.pending s).drop k)) _ e :=
        .step (by rwa [hflush]) (by rwa [hflush]) hs
      rwa [hpending, ← List.drop_append_of_le_length hk] at hstep

theorem Producer.Rests.pending {s : S} (h : P.Rests s) : P.pending s = [] := by
  have heof := h.eof
  rw [Producer.eof, Bool.and_eq_true, List.isEmpty_iff] at heof
  exact heof.2

theorem Producer.Rests.prints (hP : P.Lawful) {s : S} (h : P.Rests s) (n : ℕ) :
    P.Prints n s [] none := by
  have hflush : P.flush s [] = s := by rw [← h.pending, hP.flush_pending]
  have hfinish : P.Prints n s (P.pending s) none := .finish (by rw [hflush, h.again]) h
  rwa [h.pending] at hfinish

/-- At the end of the bytes there is no text left. -/
theorem Producer.Prints.eof (hP : P.Lawful) {n : ℕ} {s : S} {text : List UInt8} {e : Option ε}
    (h : P.Prints n s text e) (heof : P.eof s = true) : text = [] := by
  rw [Producer.eof, Bool.and_eq_true, List.isEmpty_iff] at heof
  have hflush : P.flush s [] = s := by rw [← heof.2, hP.flush_pending]
  cases h with
  | finish h _ => exact heof.2
  | fail h => exact heof.2
  | step h hended hs => rw [hflush, heof.1] at hended; cases hended

/-- What reads of some capacity give of a text with an error behind it: the error shows when room
is left, and an end is seen then. -/
structure Producer.Gives (P : Producer S ε) (n room : ℕ) (text : List UInt8) (e : Option ε)
    (r : Read S ε) : Prop where
  bytes : r.bytes = text.take room
  error : r.error = if text.length < room then e else none
  rest : r.error = none → P.Prints n r.state (text.drop room) e
  eof : r.error = none → text.length < room → P.eof r.state = true

theorem Producer.Prints.pending_le {n : ℕ} {s : S} {text : List UInt8} {e : Option ε}
    (h : P.Prints n s text e) : ∃ rest, text = P.pending s ++ rest := by
  cases h with
  | finish h hs => exact ⟨[], (List.append_nil _).symm⟩
  | fail h => exact ⟨[], (List.append_nil _).symm⟩
  | step h hended hs => exact ⟨_, rfl⟩

/-- A read takes as much of the text as there is room for. -/
theorem Producer.Prints.read (hP : P.Lawful) {n fuel room : ℕ} {s : S} {text : List UInt8}
    {e : Option ε} (h : P.Prints n s text e) (hfuel : n < fuel) (hroom : 0 < room) :
    ∃ r, P.read fuel room s = some r ∧ P.Gives n room text e r := by
  induction fuel generalizing n s text room with
  | zero => omega
  | succ fuel ih =>
      rw [Producer.read, if_neg (by omega)]
      dsimp only
      by_cases hfits : (P.pending s).length < room
      · -- everything that is pending is flushed, and a step is made
        rw [List.drop_of_length_le (by omega), hP.pending_flush, List.take_of_length_le (by omega),
          if_neg (by simp only [ne_eq, not_true_eq_false, false_or]; omega)]
        obtain ⟨more, rfl⟩ : ∃ more, room = (P.pending s).length + more :=
          ⟨room - (P.pending s).length, by omega⟩
        rw [Nat.add_sub_cancel_left]
        cases h with
        | finish hstep hs =>
            rw [hstep]
            refine ⟨_, rfl, ?_, ?_, ?_, ?_⟩
            · exact (List.take_of_length_le (Nat.le_of_lt hfits)).symm
            · rw [if_pos hfits]
            · intro _
              rw [List.drop_of_length_le (by omega)]
              exact hs.prints hP n
            · exact fun _ _ => hs.eof
        | fail hstep =>
            rw [hstep]
            refine ⟨_, rfl, ?_, ?_, nofun, nofun⟩
            · exact (List.take_of_length_le (Nat.le_of_lt hfits)).symm
            · rw [if_pos hfits]
        | @step k _ s' rest _ hstep _ hs =>
            obtain ⟨r, hread, hgives⟩ := @ih k more s' rest hs (by omega) (by omega)
            rw [hstep]
            dsimp only
            rw [hread]
            have hlength : ((P.pending s ++ rest).length < (P.pending s).length + more) =
                (rest.length < more) := by rw [List.length_append, Nat.add_lt_add_iff_left]
            refine ⟨_, rfl, ?_, ?_, ?_, ?_⟩
            · change P.pending s ++ r.bytes = _
              rw [hgives.bytes, List.take_append, Nat.add_sub_cancel_left,
                List.take_of_length_le (Nat.le_of_lt hfits)]
            · simp only [hlength]
              exact hgives.error
            · intro hnone
              rw [List.drop_append, List.drop_of_length_le (by omega), Nat.add_sub_cancel_left]
              exact (hgives.rest hnone).mono (Nat.le_succ k)
            · intro hnone hlen
              rw [hlength] at hlen
              exact hgives.eof hnone hlen
      · -- the buffer is full
        have hlen : room ≤ (P.pending s).length := by omega
        have hfull : ((P.pending s).take room).length = room := List.length_take_of_le hlen
        obtain ⟨rest, htext⟩ := h.pending_le
        have hlong : ¬ text.length < room := by
          rw [htext, List.length_append]
          omega
        rw [if_pos (.inr hfull)]
        refine ⟨_, rfl, ?_, ?_, fun _ => h.drop hP hlen, fun _ hshort => absurd hshort hlong⟩
        · rw [htext, List.take_append_of_le_length hlen]
        · rw [if_neg hlong]

variable (P) in
/-- Reads one behind another, up to one that fails. -/
def Producer.readAll (fuel : ℕ) : List ℕ → S → Option (Read S ε)
  | [], s => some ⟨s, [], none⟩
  | room :: rooms, s =>
    (P.read fuel room s).bind fun r =>
      if r.error.isSome then some r
      else (Producer.readAll fuel rooms r.state).map (Read.prepend r.bytes)

/-- The capacities cut the text and nothing else. -/
theorem Producer.Prints.readAll (hP : P.Lawful) {n fuel : ℕ} (hfuel : n < fuel) {rooms : List ℕ}
    (hrooms : ∀ room ∈ rooms, 0 < room) :
    ∀ {s : S} {text : List UInt8} {e : Option ε}, P.Prints n s text e →
      ∃ r, P.readAll fuel rooms s = some r ∧ P.Gives n rooms.sum text e r := by
  induction rooms with
  | nil =>
    intro s text e h
    exact ⟨_, rfl, rfl, rfl, fun _ => h, fun _ hlen => absurd hlen (Nat.not_lt_zero _)⟩
  | cons room rooms ih =>
    intro s text e h
    rw [List.forall_mem_cons] at hrooms
    obtain ⟨r, hread, hgives⟩ := h.read hP hfuel hrooms.1
    rw [Producer.readAll, hread, List.sum_cons]
    change ∃ r', (if r.error.isSome then some r
      else (P.readAll fuel rooms r.state).map (Read.prepend r.bytes)) = some r' ∧ _
    cases herror : r.error with
    | some e' =>
      have hwhere := hgives.error
      rw [herror] at hwhere
      have hshort : text.length < room := by
        by_contra hlong
        rw [if_neg hlong] at hwhere
        cases hwhere
      rw [if_pos hshort] at hwhere
      refine ⟨r, rfl, ?_, ?_, ?_, ?_⟩
      · rw [hgives.bytes, List.take_of_length_le (by omega), List.take_of_length_le (by omega)]
      · rw [if_pos (by omega), herror, hwhere]
      · intro hnone
        rw [herror] at hnone
        cases hnone
      · intro hnone
        rw [herror] at hnone
        cases hnone
    | none =>
      obtain ⟨r', hreads, hgives'⟩ := ih hrooms.2 (hgives.rest herror)
      rw [hreads]
      have hlength : (text.drop room).length = text.length - room := List.length_drop
      refine ⟨_, rfl, ?_, ?_, ?_, ?_⟩
      · change r.bytes ++ r'.bytes = _
        rw [hgives.bytes, hgives'.bytes, List.take_add]
      · change r'.error = _
        rw [hgives'.error, hlength]
        by_cases hrest : rooms.sum = 0
        · have hwhere := hgives.error
          rw [herror] at hwhere
          by_cases hshort : text.length < room
          · rw [if_pos hshort] at hwhere
            rw [← hwhere, ite_self, ite_self]
          · rw [if_neg (by omega), if_neg (by omega)]
        · congr 1
          rw [eq_iff_iff]
          have hpos : 0 < room := hrooms.1
          have hwhere := hgives.error
          omega
      · intro hnone
        rw [← List.drop_drop]
        exact hgives'.rest hnone
      · intro hnone hlen
        by_cases hrest : rooms = []
        · subst hrest
          cases hreads
          rw [List.sum_nil, Nat.add_zero] at hlen
          exact hgives.eof herror hlen
        · apply hgives'.eof hnone
          obtain ⟨next, more, rfl⟩ := List.exists_cons_of_ne_nil hrest
          have hnext := hrooms.2 next List.mem_cons_self
          rw [hlength]
          rw [List.sum_cons] at hlen ⊢
          omega

/-! ## States with a property -/

/-- From every state with a property a text is printed behind what is pending. -/
def Producer.Writes (P : Producer S ε) (n : ℕ) (A : S → Prop) (text : List UInt8) : Prop :=
  ∀ s, A s → P.Prints n s (P.pending s ++ text) none

theorem Producer.Writes.step {n : ℕ} {A B : S → Prop} {text out : List UInt8}
    (hB : P.Writes n B text)
    (h : ∀ s, A s → P.ended (P.flush s []) = false ∧
      ∃ s', P.step (P.flush s []) = .next s' ∧ P.pending s' = out ∧ B s') :
    P.Writes (n + 1) A (out ++ text) := by
  intro s hs
  obtain ⟨hended, s', hstep, rfl, hs'⟩ := h s hs
  exact .step hstep hended (hB s' hs')

/-- From every state with a property a text is printed behind what is pending, and what comes
behind it. -/
def Producer.Yields (P : Producer S ε) (A : S → Prop) (text : List UInt8) (e : Option ε) : Prop :=
  ∃ n, ∀ s, A s → P.Prints n s (P.pending s ++ text) e

theorem Producer.Yields.step {A B : S → Prop} {text out : List UInt8} {e : Option ε}
    (hB : P.Yields B text e)
    (h : ∀ s, A s → P.ended (P.flush s []) = false ∧
      ∃ s', P.step (P.flush s []) = .next s' ∧ P.pending s' = out ∧ B s') :
    P.Yields A (out ++ text) e := by
  obtain ⟨n, hB⟩ := hB
  refine ⟨n + 1, fun s hs => ?_⟩
  obtain ⟨hended, s', hstep, rfl, hs'⟩ := h s hs
  exact .step hstep hended (hB s' hs')

theorem Producer.Yields.finish {A : S → Prop}
    (h : ∀ s, A s → ∃ s', P.step (P.flush s []) = .finish s' ∧ P.Rests s') :
    P.Yields A [] none := by
  refine ⟨0, fun s hs => ?_⟩
  obtain ⟨s', hstep, hrests⟩ := h s hs
  rw [List.append_nil]
  exact .finish hstep hrests

theorem Producer.Yields.fail {A : S → Prop} {e : ε}
    (h : ∀ s, A s → ∃ s', P.step (P.flush s []) = .fail s' e) : P.Yields A [] (some e) := by
  refine ⟨0, fun s hs => ?_⟩
  obtain ⟨s', hstep⟩ := h s hs
  rw [List.append_nil]
  exact .fail hstep

theorem Producer.Yields.imp {A B : S → Prop} {text : List UInt8} {e : Option ε}
    (h : P.Yields B text e) (hA : ∀ s, A s → B s) : P.Yields A text e := by
  obtain ⟨n, h⟩ := h
  exact ⟨n, fun s hs => h s (hA s hs)⟩

/-- What an outcome leads to: the text that is printed behind it, and the error behind that. -/
inductive Producer.Leads (P : Producer S ε) (n : ℕ) :
    Outcome S ε → List UInt8 → Option ε → Prop where
  | next {s : S} {text : List UInt8} {e : Option ε} (h : P.Prints n s text e) :
      Leads P n (.next s) text e
  | fail {s : S} {e : ε} : Leads P n (.fail s e) [] (some e)

theorem Producer.Yields.lead {A : S → Prop} {n : ℕ} {text : List UInt8} {e : Option ε}
    (h : ∀ s, A s → P.ended (P.flush s []) = false ∧ P.Leads n (P.step (P.flush s [])) text e) :
    P.Yields A text e := by
  refine ⟨n + 1, fun s hs => ?_⟩
  obtain ⟨hended, hleads⟩ := h s hs
  generalize hstep : P.step (P.flush s []) = o at hleads
  cases hleads with
  | next hprints => exact .step hstep hended hprints
  | fail =>
      rw [List.append_nil]
      exact .fail hstep

/-- From the states with one property a text is printed up to a state with another one. -/
def Producer.Runs (P : Producer S ε) (A : S → Prop) (text : List UInt8) (B : S → Prop) : Prop :=
  ∀ behind e, P.Yields B behind e → P.Yields A (text ++ behind) e

theorem Producer.Runs.refl (A : S → Prop) : P.Runs A [] A := fun _ _ h => h

theorem Producer.Runs.trans {A B C : S → Prop} {text text' : List UInt8} (h : P.Runs A text B)
    (h' : P.Runs B text' C) : P.Runs A (text ++ text') C := fun behind e hC => by
  rw [List.append_assoc]
  exact h _ e (h' behind e hC)

theorem Producer.Runs.step {A B : S → Prop} {text : List UInt8}
    (h : ∀ s, A s → P.ended (P.flush s []) = false ∧
      ∃ s', P.step (P.flush s []) = .next s' ∧ P.pending s' = text ∧ B s') : P.Runs A text B :=
  fun _ _ hB => hB.step h

/-- Reads with any capacities give a text, and what comes behind it once there is room left. -/
def Producer.Delivers (P : Producer S ε) (s : S) (text : List UInt8) (e : Option ε) : Prop :=
  ∃ n, ∀ fuel, n < fuel → ∀ rooms : List ℕ, (∀ room ∈ rooms, 0 < room) →
    ∃ r, P.readAll fuel rooms s = some r ∧ r.bytes = text.take rooms.sum ∧
      r.error = (if text.length < rooms.sum then e else none) ∧
      (r.error = none → (text.length < rooms.sum → P.eof r.state = true) ∧
        (P.eof r.state = true → text.length ≤ rooms.sum))

theorem Producer.Prints.delivers (hP : P.Lawful) {n : ℕ} {s : S} {text : List UInt8}
    {e : Option ε} (h : P.Prints n s text e) : P.Delivers s text e := by
  refine ⟨n, fun fuel hfuel rooms hrooms => ?_⟩
  obtain ⟨r, hread, hgives⟩ := h.readAll hP hfuel hrooms
  refine ⟨r, hread, hgives.bytes, hgives.error, fun hnone => ⟨hgives.eof hnone, fun heof => ?_⟩⟩
  have hrest := (hgives.rest hnone).eof hP heof
  rwa [List.drop_eq_nil_iff] at hrest

/-- The text and what comes behind it are known from the reads. -/
theorem Producer.Delivers.unique {s : S} {text text' : List UInt8} {e e' : Option ε}
    (h : P.Delivers s text e) (h' : P.Delivers s text' e') : text = text' ∧ e = e' := by
  obtain ⟨n, h⟩ := h
  obtain ⟨n', h'⟩ := h'
  have hrooms : ∀ room ∈ [text.length + text'.length + 1], 0 < room := by
    intro room hroom
    rw [List.mem_singleton.mp hroom]
    omega
  obtain ⟨r, hread, hbytes, herror, -⟩ := h (n + n' + 1) (by omega) _ hrooms
  obtain ⟨r', hread', hbytes', herror', -⟩ := h' (n + n' + 1) (by omega) _ hrooms
  obtain rfl : r = r' := Option.some.inj (hread.symm.trans hread')
  rw [List.sum_singleton] at hbytes hbytes' herror herror'
  rw [List.take_of_length_le (by omega)] at hbytes hbytes'
  rw [if_pos (by omega)] at herror herror'
  exact ⟨hbytes.symm.trans hbytes', herror.symm.trans herror'⟩

end Pull
