import Lonejson.GeneratorFrames

/-!
# Arrays and maps of the generator

The phases of an array and of a map around what their elements and members write. What carries
the loops is the index of the frame, which says how many elements or fields are behind.
-/

namespace Lonejson

open Pull (Outcome Producer)

theorem except_bind_assoc {ε α β γ : Type} (x : Except ε α) (f : α → Except ε β)
    (h : β → Except ε γ) : (x.bind f).bind h = x.bind fun a => (f a).bind h := by
  cases x <;> rfl

namespace Generator

section

variable {fuel : ℕ} {env : SerializeEnv} {pretty : Bool}
  {frames : List (GeneratorFrame RecordFrame)}

/-! ## Lines -/

theorem indentAux_eq {depth : ℕ} (h : depth ≤ sizeMax / 2) : indentAux depth = depth * 2 := by
  have hmax : sizeMax = 2 ^ 64 - 1 := rfl
  rw [hmax] at h
  rw [indentAux, hmax]
  omega

/-- The blanks of a line are printed up to 64 a step; what is left of the count is of no use. -/
theorem runs_blanks {K : ℕ → ℕ → RecordFrame} {phase next : ℕ}
    (h : ∀ aux g, stepRecordFrame fuel env pretty (K phase aux) g =
      (g.putTop (K (indentPhase phase next aux).1 (indentPhase phase next aux).2.1)).setPending
        (indentPhase phase next aux).2.2) (aux : ℕ) :
    ∃ aux', (recordProducer fuel env pretty).Runs (At (.other (K phase aux) :: frames))
      (List.replicate aux 0x20) (At (.other (K next aux') :: frames)) := by
  induction aux using Nat.strong_induction_on with
  | _ aux ih =>
      have hstep := @runs_put fuel env pretty frames _ _ _ (h aux)
      rw [indentPhase] at hstep
      split_ifs at hstep with hzero hmany
      · exact ⟨aux, by rw [hzero] at hstep ⊢; exact hstep⟩
      · obtain ⟨aux', hrest⟩ := ih (aux - 64) (by omega)
        refine ⟨aux', ?_⟩
        have hsplit : (List.replicate aux 0x20 : Bytes) =
            List.replicate 64 0x20 ++ List.replicate (aux - 64) 0x20 := by
          rw [← List.replicate_add]
          congr 1
          omega
        rw [hsplit]
        exact hstep.trans hrest
      · exact ⟨aux, hstep⟩

/-- A line break with the blanks behind it. -/
theorem runs_line {K : ℕ → ℕ → RecordFrame} {start phase next depth : ℕ}
    (hstart : ∀ aux g, stepRecordFrame fuel env pretty (K start aux) g =
      (g.putTop (K phase (indentAux depth))).setPending [0x0a])
    (hphase : ∀ aux g, stepRecordFrame fuel env pretty (K phase aux) g =
      (g.putTop (K (indentPhase phase next aux).1 (indentPhase phase next aux).2.1)).setPending
        (indentPhase phase next aux).2.2)
    (hdepth : depth ≤ sizeMax / 2) (aux : ℕ) :
    ∃ aux', Echoes (recordProducer fuel env pretty) (fun io => io.emitIndent collectSink depth)
      (At (.other (K start aux) :: frames)) (At (.other (K next aux') :: frames)) := by
  obtain ⟨aux', hblanks⟩ := @runs_blanks fuel env pretty frames K phase next hphase (indentAux depth)
  refine ⟨aux', echoes_runs (emits_indent hdepth) ?_⟩
  rw [indentAux_eq hdepth] at hblanks hstart
  exact (runs_put (hstart aux)).trans hblanks

/-- The phases in front of an element or of a key: a comma behind another one, and a line. -/
structure Separates (fuel : ℕ) (env : SerializeEnv) (pretty : Bool) (K : ℕ → ℕ → RecordFrame)
    (depth : ℕ) : Prop where
  comma : ∀ aux g, stepRecordFrame fuel env pretty (K 2 aux) g =
    (g.putTop (K (if pretty then 3 else 5) aux)).setPending [0x2c]
  line : ∀ aux g, stepRecordFrame fuel env pretty (K 3 aux) g =
    (g.putTop (K 4 (indentAux (depth + 1)))).setPending [0x0a]
  blanks : ∀ aux g, stepRecordFrame fuel env pretty (K 4 aux) g =
    (g.putTop (K (indentPhase 4 5 aux).1 (indentPhase 4 5 aux).2.1)).setPending
      (indentPhase 4 5 aux).2.2

theorem echoes_separator {start : RecordFrame} {K : ℕ → ℕ → RecordFrame} {depth aux : ℕ}
    (h : Separates fuel env pretty K depth) (hdepth : pretty = true → depth + 1 ≤ sizeMax / 2)
    (first : Bool)
    (hstart : ∀ g, stepRecordFrame fuel env pretty start g =
      .next (g.putTop (K (if first then (if pretty then 3 else 5) else 2) aux))) :
    ∃ aux', Echoes (recordProducer fuel env pretty)
      (serializeSeparator (sinkOps collectSink) pretty first depth)
      (At (.other start :: frames)) (At (.other (K 5 aux') :: frames)) := by
  -- in front of the line
  have hcomma : Echoes (recordProducer fuel env pretty)
      (fun io => if first then .ok io else (sinkOps collectSink).emit io [0x2c])
      (At (.other start :: frames))
      (At (.other (K (if pretty then 3 else 5) aux) :: frames)) := by
    have hnext := @runs_next fuel env pretty frames _ _ hstart
    cases first with
    | true => exact echoes_runs (fun io => ⟨io, rfl, (List.append_nil _).symm⟩) hnext
    | false => exact (echoes_runs (emits_emitBytes [0x2c]) (runs_put (h.comma aux))).from hnext
  cases hpretty : pretty with
  | false =>
      rw [hpretty] at hcomma
      refine ⟨aux, hcomma.bind (echoes_runs (fun io => ⟨io, ?_, ?_⟩) (.refl _))⟩
      · rfl
      · exact (List.append_nil _).symm
  | true =>
      rw [hpretty] at hcomma
      obtain ⟨aux', hline⟩ := @runs_line fuel env true frames K 3 4 5 (depth + 1)
        (hpretty ▸ h.line) (hpretty ▸ h.blanks) (hdepth hpretty) aux
      exact ⟨aux', hcomma.bind hline⟩

/-! ## Arrays -/

section

variable {α : Type} {arr : GeneratorArray} {items : List α} {depth : ℕ}
  {call : α → RecordGenerator → Step RecordFrame}
  {write : α → JsonIo Bytes → Except (JsonIo Bytes) (JsonIo Bytes)}

theorem stepArrayPhase_next (element : RecordGenerator → Step RecordFrame) (message : String)
    (index aux : ℕ) (g : RecordGenerator) :
    stepArrayPhase pretty element message { arr, depth, phase := 1, index, aux } g =
      .next (g.putTop (.array {
        arr, depth, index, aux
        phase :=
          if index ≥ arr.count then if pretty && arr.count ≠ 0 then 7 else 9
          else if index ≠ 0 then 2
          else if pretty then 3 else 5 })) := rfl

/-- The array has these elements, and the element step makes the call. -/
structure ArrayHolds (fuel : ℕ) (env : SerializeEnv) (pretty : Bool) (arr : GeneratorArray)
    (items : List α) (depth : ℕ) (call : α → RecordGenerator → Step RecordFrame) : Prop where
  count : arr.count = items.length
  step : ∀ phase index aux g, ∃ message,
    stepRecordFrame fuel env pretty (.array { arr, depth, phase, index, aux }) g =
      stepArrayPhase pretty (element items index fun g item => call item g) message
        { arr, depth, phase, index, aux } g

theorem ArrayHolds.at (h : ArrayHolds fuel env pretty arr items depth call) (index : ℕ) :
    Separates fuel env pretty (fun phase aux => .array { arr, depth, phase, index, aux }) depth where
  comma aux g := by
    obtain ⟨message, hstep⟩ := h.step 2 index aux g
    rw [hstep]
    rfl
  line aux g := by
    obtain ⟨message, hstep⟩ := h.step 3 index aux g
    rw [hstep]
    rfl
  blanks aux g := by
    obtain ⟨message, hstep⟩ := h.step 4 index aux g
    rw [hstep]
    rfl

/-- The loop over the elements behind some of them. -/
theorem echoes_elements (h : ArrayHolds fuel env pretty arr items depth call)
    (hdepth : pretty = true → depth + 1 ≤ sizeMax / 2)
    (hitems : ∀ item ∈ items, ∀ frames, frames ≠ [] →
      Answers (recordProducer fuel env pretty) (call item) frames (write item))
    (rest : List α) : ∀ (done : List α) (aux : ℕ), items = done ++ rest → ∃ aux',
      Echoes (recordProducer fuel env pretty)
        (serializeElements (sinkOps collectSink) pretty write depth done.isEmpty rest)
        (At (.other (.array { arr, depth, phase := 1, index := done.length, aux }) :: frames))
        (At (.other (.array { arr, depth, phase := 1, index := items.length, aux := aux' }) ::
          frames)) := by
  induction rest with
  | nil =>
      intro done aux hsplit
      rw [List.append_nil] at hsplit
      exact ⟨aux, hsplit ▸ echoes_runs (fun io => ⟨io, rfl, (List.append_nil _).symm⟩) (.refl _)⟩
  | cons item rest ih =>
      intro done aux hsplit
      have hlt : done.length < arr.count := by
        rw [h.count, hsplit, List.length_append, List.length_cons]
        omega
      obtain ⟨aux', hseparator⟩ := @echoes_separator fuel env pretty frames
        (.array { arr, depth, phase := 1, index := done.length, aux }) _ depth aux (h.at done.length)
        hdepth done.isEmpty (fun g => by
          obtain ⟨message, hstep⟩ := h.step 1 done.length aux g
          rw [hstep, stepArrayPhase_next, if_neg (by omega)]
          cases done <;> rfl)
      have hitem : Echoes (recordProducer fuel env pretty) (write item)
          (At (.other (.array { arr, depth, phase := 5, index := done.length, aux := aux' }) ::
            frames))
          (At (.other (.array { arr, depth, phase := 6, index := done.length, aux := aux' }) ::
            frames)) := by
        refine (hitems item (by rw [hsplit]; simp) _ (List.cons_ne_nil _ _)).put fun g => ?_
        obtain ⟨message, hstep⟩ := h.step 5 done.length aux' g
        have hget : items[done.length]? = some item := by
          rw [hsplit, List.getElem?_append_right le_rfl, Nat.sub_self]
          rfl
        rw [hstep]
        change element items done.length (fun g item => call item g) _ = _
        rw [element, hget]
      have hnext : (recordProducer fuel env pretty).Runs
          (At (.other (.array { arr, depth, phase := 6, index := done.length, aux := aux' }) ::
            frames)) []
          (At (.other (.array { arr, depth, phase := 1, index := done.length + 1, aux := aux' }) ::
            frames)) := by
        refine runs_next fun g => ?_
        obtain ⟨message, hstep⟩ := h.step 6 done.length aux' g
        rw [hstep]
        rfl
      obtain ⟨aux'', hrest⟩ := ih (done ++ [item]) aux' (by rw [hsplit, List.append_assoc]; rfl)
      rw [List.length_append, List.length_singleton] at hrest
      have hempty : (done ++ [item]).isEmpty = false := by cases done <;> rfl
      rw [hempty] at hrest
      exact ⟨aux'', hseparator.bind (hitem.bind (hrest.from hnext))⟩

/-- An array frame. -/
theorem echoes_array (h : ArrayHolds fuel env pretty arr items depth call)
    (hdepth : pretty = true → depth + 1 ≤ sizeMax / 2)
    (hitems : ∀ item ∈ items, ∀ frames, frames ≠ [] →
      Answers (recordProducer fuel env pretty) (call item) frames (write item)) :
    Echoes (recordProducer fuel env pretty)
      (serializeArray (sinkOps collectSink) pretty write depth items)
      (At (.other (.array { arr, depth }) :: frames)) (At frames) := by
  have hopen : (recordProducer fuel env pretty).Runs (At (.other (.array { arr, depth }) :: frames))
      [0x5b] (At (.other (.array { arr, depth, phase := 1 }) :: frames)) := by
    refine runs_put fun g => ?_
    obtain ⟨message, hstep⟩ := h.step 0 0 0 g
    rw [hstep]
    rfl
  have hclose (aux : ℕ) : Echoes (recordProducer fuel env pretty)
      (fun io => (sinkOps collectSink).emit io [0x5d])
      (At (.other (.array { arr, depth, phase := 9, index := items.length, aux }) :: frames))
      (At frames) := by
    refine echoes_runs (emits_emitBytes [0x5d]) (runs_pop fun g => ?_)
    obtain ⟨message, hstep⟩ := h.step 9 items.length aux g
    rw [hstep]
    rfl
  have hend (aux : ℕ) : (recordProducer fuel env pretty).Runs
      (At (.other (.array { arr, depth, phase := 1, index := items.length, aux }) :: frames)) []
      (At (.other (.array {
        arr, depth, phase := if pretty && items.length ≠ 0 then 7 else 9
        index := items.length, aux }) :: frames)) := by
    refine runs_next fun g => ?_
    obtain ⟨message, hstep⟩ := h.step 1 items.length aux g
    rw [hstep, stepArrayPhase_next, h.count, if_pos le_rfl]
  suffices hbehind : Echoes (recordProducer fuel env pretty)
      (fun io => if pretty && items.isEmpty then (sinkOps collectSink).emit io [0x5d]
        else (serializeElements (sinkOps collectSink) pretty write depth true items io).bind fun io =>
          (serializeIndent (sinkOps collectSink) pretty depth io).bind fun io =>
            (sinkOps collectSink).emit io [0x5d])
      (At (.other (.array { arr, depth, phase := 1 }) :: frames)) (At frames) from
    Echoes.after hopen (emits_emitBytes [0x5b]) hbehind
  by_cases hearly : (pretty && items.isEmpty) = true
  · have hempty : items = [] := List.isEmpty_iff.mp (Bool.and_eq_true_iff.mp hearly).2
    subst hempty
    refine Echoes.congr (Echoes.from (hclose 0) ?_) fun io => if_pos hearly
    have hend' := hend 0
    rw [List.length_nil] at hend'
    simpa using hend'
  · refine Echoes.congr ?_ fun io => if_neg hearly
    obtain ⟨aux, helements⟩ := @echoes_elements fuel env pretty frames α arr items depth call write h
      hdepth hitems items [] 0 rfl
    refine helements.bind (Echoes.from ?_ (hend aux))
    have hlength : pretty = true → items.length ≠ 0 := fun hpretty hzero => hearly (by
      rw [hpretty, List.length_eq_zero_iff.mp hzero]
      rfl)
    cases hpretty : pretty with
    | false =>
        rw [Bool.false_and, if_neg Bool.false_ne_true]
        subst hpretty
        exact (hclose aux).congr fun io => rfl
    | true =>
        rw [Bool.true_and, if_pos (by simpa using hlength hpretty)]
        obtain ⟨aux', hline⟩ := @runs_line fuel env true frames
          (fun phase aux => .array { arr, depth, phase, index := items.length, aux }) 7 8 9 depth
          (fun aux g => by
            obtain ⟨message, hstep⟩ := h.step 7 items.length aux g
            rw [← hpretty, hstep]
            rfl)
          (fun aux g => by
            obtain ⟨message, hstep⟩ := h.step 8 items.length aux g
            rw [← hpretty, hstep]
            rfl)
          (Nat.le_of_succ_le (hdepth hpretty)) aux
        exact hline.bind (hpretty ▸ hclose aux')

end

/-! ## Maps -/

section

variable {map : MapId} {src : Record} {depth : ℕ}

theorem stepRecordFrame_map (frame : MapFrame) (g : RecordGenerator) :
    stepRecordFrame fuel env pretty (.map frame) g = stepMap env pretty frame g := rfl

theorem stepMap_next (index aux emitted : ℕ) (g : RecordGenerator) :
    stepMap env pretty { map, src, depth, phase := 1, index, aux, emitted } g =
      .next (g.putTop (.map {
        map, src, depth, aux, emitted
        index := skipOmitted env ((env.maps map).fields.zip src) index
        phase :=
          if skipOmitted env ((env.maps map).fields.zip src) index ≥
              ((env.maps map).fields.zip src).length then
            if pretty && emitted ≠ 0 then 9 else 11
          else if emitted ≠ 0 then 2
          else if pretty then 3 else 5 })) := rfl

theorem mapSeparates (index emitted : ℕ) : Separates fuel env pretty
    (fun phase aux => .map { map, src, depth, phase, index, aux, emitted }) depth :=
  ⟨fun _ _ => rfl, fun _ _ => rfl, fun _ _ => rfl⟩

/-- The loop over the members that are left out stops behind one of them no more than in front. -/
theorem skipOmitted_cons {done rest : List (Field × Value × Bool)} {row : Field × Value × Bool}
    (h : fieldShouldOmit env.maps row.1 row.2.1 row.2.2 = true) :
    skipOmitted env (done ++ row :: rest) done.length =
      skipOmitted env (done ++ row :: rest) (done ++ [row]).length := by
  have hsplit : done ++ row :: rest = done ++ [row] ++ rest := by
    rw [List.append_assoc, List.singleton_append]
  have hdrop : (done ++ row :: rest).drop (done ++ [row]).length = rest := by
    rw [hsplit, List.drop_left]
  rw [skipOmitted, skipOmitted, hdrop, List.drop_left, List.takeWhile_cons, h, if_pos rfl,
    List.length_cons, List.length_append, List.length_singleton]
  omega

theorem skipOmitted_self {done rest : List (Field × Value × Bool)} {row : Field × Value × Bool}
    (h : fieldShouldOmit env.maps row.1 row.2.1 row.2.2 = false) :
    skipOmitted env (done ++ row :: rest) done.length = done.length := by
  rw [skipOmitted, List.drop_left, List.takeWhile_cons, h, if_neg Bool.false_ne_true]
  rfl

theorem skipOmitted_length (rows : List (Field × Value × Bool)) :
    skipOmitted env rows rows.length = rows.length := by
  rw [skipOmitted, List.drop_length]
  rfl

/-- The key of a member, behind those that are left out. -/
theorem echoes_key {field : Field} {row : Value × Bool} {start index : ℕ} (aux emitted : ℕ)
    (hrow : ((env.maps map).fields.zip src)[index]? = some (field, row))
    (hskip : skipOmitted env ((env.maps map).fields.zip src) start = index)
    (hkey : 0 ∉ field.jsonKey) (hdepth : pretty = true → depth + 1 ≤ sizeMax / 2) : ∃ aux',
      Echoes (recordProducer fuel env pretty)
        (serializeKey (sinkOps collectSink) pretty (emitted == 0) depth field.jsonKey)
        (At (.other (.map { map, src, depth, phase := 1, index := start, aux, emitted }) :: frames))
        (At (.other (.map { map, src, depth, phase := 7, index, aux := aux', emitted }) ::
          frames)) := by
  have hlt : index < ((env.maps map).fields.zip src).length :=
    (List.getElem?_eq_some_iff.mp hrow).1
  obtain ⟨aux', hseparator⟩ := @echoes_separator fuel env pretty frames
    (.map { map, src, depth, phase := 1, index := start, aux, emitted })
    (fun phase aux => .map { map, src, depth, phase, index, aux, emitted }) depth aux
    (mapSeparates index emitted) hdepth (emitted == 0) (fun g => by
      rw [stepRecordFrame_map, stepMap_next, hskip, if_neg (by omega)]
      cases emitted <;> rfl)
  have hname : Echoes (recordProducer fuel env pretty)
      (fun io => (sinkOps collectSink).escaped io field.jsonKey)
      (At (.other (.map { map, src, depth, phase := 5, index, aux := aux', emitted }) :: frames))
      (At (.other (.map { map, src, depth, phase := 6, index, aux := aux', emitted }) ::
        frames)) := by
    have hpush : Answers (recordProducer fuel env pretty) (fun g => g.pushString field.jsonKey)
        (.other (.map { map, src, depth, phase := 6, index, aux := aux', emitted }) :: frames)
        (fun io => (sinkOps collectSink).escaped io field.jsonKey) := by
      refine answers_push (echoes_string field.jsonKey) (fun g => ?_) fun g => rfl
      rw [pushString, cString_eq hkey]
    refine hpush.put fun g => ?_
    simp only [stepRecordFrame_map, stepMap, MapFrame.rows, hrow]
  have hcolon : (recordProducer fuel env pretty).Runs
      (At (.other (.map { map, src, depth, phase := 6, index, aux := aux', emitted }) :: frames))
      (if pretty then [0x3a, 0x20] else [0x3a])
      (At (.other (.map { map, src, depth, phase := 7, index, aux := aux', emitted }) :: frames)) :=
    runs_put fun g => rfl
  exact ⟨aux', hseparator.bind (hname.bind (echoes_runs (emits_emitBytes _) hcolon))⟩

/-- The end of a map frame. -/
theorem echoes_close (index aux emitted : ℕ) (hdepth : pretty = true → depth ≤ sizeMax / 2) :
    Echoes (recordProducer fuel env pretty)
      (fun io => (if !(emitted == 0) then serializeIndent (sinkOps collectSink) pretty depth io
        else .ok io).bind fun io => (sinkOps collectSink).emit io [0x7d])
      (At (.other (.map {
        map, src, depth, index, aux, emitted
        phase := if pretty && emitted ≠ 0 then 9 else 11 }) :: frames)) (At frames) := by
  have hclose (aux : ℕ) : Echoes (recordProducer fuel env pretty)
      (fun io => (sinkOps collectSink).emit io [0x7d])
      (At (.other (.map { map, src, depth, phase := 11, index, aux, emitted }) :: frames))
      (At frames) := echoes_runs (emits_emitBytes [0x7d]) (runs_pop fun g => rfl)
  cases emitted with
  | zero =>
      rw [if_neg (by simp)]
      exact (hclose aux).congr fun io => rfl
  | succ emitted =>
      cases hpretty : pretty with
      | false =>
          subst hpretty
          exact (hclose aux).congr fun io => rfl
      | true =>
          obtain ⟨aux', hline⟩ := @runs_line fuel env true frames
            (fun phase aux => .map { map, src, depth, phase, index, aux, emitted := emitted + 1 })
            9 10 11 depth (fun _ _ => rfl) (fun _ _ => rfl) (hdepth hpretty) aux
          exact hline.bind (hpretty ▸ hclose aux')

/-- What is known of the members that are written. -/
def Answered (fuel : ℕ) (env : SerializeEnv) (pretty : Bool) (depth : ℕ)
    (row : Field × Value × Bool) : Prop :=
  fieldShouldOmit env.maps row.1 row.2.1 row.2.2 = false → 0 ∉ row.1.jsonKey ∧
    ∀ frames, frames ≠ [] → Answers (recordProducer fuel env pretty)
      (fun g => g.pushValueFromField env row.1 (depth + 1) row.2.1) frames
      (serializeValue env (sinkOps collectSink) pretty row.1 (depth + 1) row.2.1)

/-- The members behind some of them, and the end of the object. -/
theorem echoes_members (hdepth : pretty = true → depth + 1 ≤ sizeMax / 2)
    (members : List (Value × Bool)) : ∀ (fields : List Field) (done : List (Field × Value × Bool))
      (index aux emitted : ℕ), (env.maps map).fields.zip src = done ++ fields.zip members →
      skipOmitted env ((env.maps map).fields.zip src) index =
        skipOmitted env ((env.maps map).fields.zip src) done.length →
      (∀ row ∈ fields.zip members, Answered fuel env pretty depth row) →
      Echoes (recordProducer fuel env pretty)
        (fun io => (serializeMembers env (sinkOps collectSink) pretty depth fields members
            (emitted == 0) io).bind fun x =>
          (if x.1 then serializeIndent (sinkOps collectSink) pretty depth x.2
            else .ok x.2).bind fun io => (sinkOps collectSink).emit io [0x7d])
        (At (.other (.map { map, src, depth, phase := 1, index, aux, emitted }) :: frames))
        (At frames) := by
  have hend {fields : List Field} {members : List (Value × Bool)}
      {done : List (Field × Value × Bool)} {index aux emitted : ℕ}
      (hzip : fields.zip members = [])
      (hsplit : (env.maps map).fields.zip src = done ++ fields.zip members)
      (hskip : skipOmitted env ((env.maps map).fields.zip src) index =
        skipOmitted env ((env.maps map).fields.zip src) done.length)
      (hwrite : ∀ io, serializeMembers env (sinkOps collectSink) pretty depth fields members
        (emitted == 0) io = .ok (!(emitted == 0), io)) :
      Echoes (recordProducer fuel env pretty)
        (fun io => (serializeMembers env (sinkOps collectSink) pretty depth fields members
            (emitted == 0) io).bind fun x =>
          (if x.1 then serializeIndent (sinkOps collectSink) pretty depth x.2
            else .ok x.2).bind fun io => (sinkOps collectSink).emit io [0x7d])
        (At (.other (.map { map, src, depth, phase := 1, index, aux, emitted }) :: frames))
        (At frames) := by
    rw [hzip, List.append_nil] at hsplit
    rw [← hsplit, skipOmitted_length] at hskip
    have hclose := @echoes_close fuel env pretty frames map src depth
      ((env.maps map).fields.zip src).length aux emitted fun h => Nat.le_of_succ_le (hdepth h)
    refine (hclose.from (runs_next fun g => ?_)).congr fun io => ?_
    · rw [stepRecordFrame_map, stepMap_next, hskip, if_pos le_rfl]
    · rw [hwrite]
      rfl
  induction members with
  | nil =>
      intro fields done index aux emitted hsplit hskip _
      exact hend List.zip_nil_right hsplit hskip fun io => by cases fields <;> rfl
  | cons member members ih =>
      intro fields done index aux emitted hsplit hskip hrows
      cases fields with
      | nil => exact hend List.zip_nil_left hsplit hskip fun io => rfl
      | cons field fields =>
          obtain ⟨v, present⟩ := member
          rw [List.zip_cons_cons] at hsplit hrows
          rw [List.forall_mem_cons] at hrows
          have hsplit' : (env.maps map).fields.zip src =
              done ++ [(field, v, present)] ++ fields.zip members := by
            rw [hsplit, List.append_assoc, List.singleton_append]
          cases homit : fieldShouldOmit env.maps field v present with
          | true =>
              refine (ih fields _ index aux emitted hsplit' ?_ hrows.2).congr fun io => ?_
              · rw [hskip, hsplit]
                exact skipOmitted_cons homit
              · rw [serializeMembers, if_pos homit]
          | false =>
              obtain ⟨hkey, hvalue⟩ := hrows.1 homit
              have hrow : ((env.maps map).fields.zip src)[done.length]? =
                  some (field, v, present) := by
                rw [hsplit, List.getElem?_append_right le_rfl, Nat.sub_self]
                rfl
              have hself : skipOmitted env ((env.maps map).fields.zip src) done.length =
                  done.length := by
                rw [hsplit]
                exact skipOmitted_self homit
              obtain ⟨aux', hname⟩ := @echoes_key fuel env pretty frames map src depth field _ index
                done.length aux emitted hrow (hskip.trans hself) hkey hdepth
              have hmember : Echoes (recordProducer fuel env pretty)
                  (serializeValue env (sinkOps collectSink) pretty field (depth + 1) v)
                  (At (.other (.map {
                    map, src, depth, phase := 7, index := done.length, aux := aux', emitted }) ::
                    frames))
                  (At (.other (.map {
                    map, src, depth, phase := 8, index := done.length, aux := aux', emitted }) ::
                    frames)) := by
                refine (hvalue _ (List.cons_ne_nil _ _)).put fun g => ?_
                simp only [stepRecordFrame_map, stepMap, MapFrame.rows, hrow]
              have hnext : (recordProducer fuel env pretty).Runs
                  (At (.other (.map {
                    map, src, depth, phase := 8, index := done.length, aux := aux', emitted }) ::
                    frames)) []
                  (At (.other (.map {
                    map, src, depth, phase := 1, index := done.length + 1, aux := aux'
                    emitted := emitted + 1 }) :: frames)) := runs_next fun g => rfl
              have hrest := ih fields (done ++ [(field, v, present)]) (done.length + 1) aux'
                (emitted + 1) hsplit' (by rw [List.length_append, List.length_singleton]) hrows.2
              refine (hname.bind (hmember.bind (hrest.from hnext))).congr fun io => ?_
              rw [serializeMembers, if_neg (by rw [homit]; exact Bool.false_ne_true)]
              exact (except_bind_assoc _ _ _).trans (congrArg _ (funext fun io =>
                except_bind_assoc _ _ _))

/-- A map frame. -/
theorem echoes_map (hdepth : pretty = true → depth + 1 ≤ sizeMax / 2)
    (hrows : ∀ row ∈ (env.maps map).fields.zip src, Answered fuel env pretty depth row) :
    Echoes (recordProducer fuel env pretty)
      (serializeMap env (sinkOps collectSink) pretty map src depth)
      (At (.other (.map { map, src, depth }) :: frames)) (At frames) := by
  have hopen : (recordProducer fuel env pretty).Runs
      (At (.other (.map { map, src, depth }) :: frames)) [0x7b]
      (At (.other (.map { map, src, depth, phase := 1 }) :: frames)) := runs_put fun g => rfl
  exact Echoes.after hopen (emits_emitBytes [0x7b])
    (echoes_members hdepth src (env.maps map).fields [] 0 0 0 rfl rfl hrows)

end

end

end Generator

end Lonejson
