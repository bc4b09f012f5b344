import Mathlib

/-!
# Steps that pause

A step that may pause before it is through, beside the same step where nothing makes it pause. The
states of the one are seen as states of the other. A step replays when a pause is invisible: where
the other step begins again at what is seen behind the pause, it comes to the same end.
-/

namespace Resuming

/-- What is seen of the states of a step that may pause, and its three outcomes apart from
failures: it is through, it pauses, or it gives up where the other step would have to go on for
ever. `told` is what has been written, `stuck` the states in which a pause is allowed. -/
structure Setting (A B ε κ : Type) where
  see : A → B
  told : B → List κ
  fits : A → Prop
  stuck : A → Prop
  done : ε
  paused : ε
  lost : ε
  lost_ne : lost ≠ done
  paused_ne : paused ≠ done

variable {A B C ε κ : Type} {S : Setting A B ε κ}

/-- From the states with `P` the step `f` gets as far as `g` does, into a state with `Q`, or it
pauses in a state with `R`. -/
structure Setting.Replays (S : Setting A B ε κ) (P : A → Prop) (f : A → A × ε) (g : B → B × ε)
    (Q R : A → Prop) : Prop where
  grows : ∀ b, S.told b <+: S.told (g b).1
  step : ∀ a, S.fits a → P a → (g (S.see a)).2 ≠ S.lost → S.fits (f a).1 ∧
    ((g (S.see a) = (S.see (f a).1, (f a).2) ∧ ((f a).2 = S.done → Q (f a).1)) ∨
      ((f a).2 = S.paused ∧ S.stuck (f a).1 ∧ R (f a).1 ∧ g (S.see (f a).1) = g (S.see a)))

section

variable {P P' Q Q' R R' : A → Prop} {f f' : A → A × ε} {g g' : B → B × ε}

theorem Setting.Replays.imp (h : S.Replays P f g Q R) (hP : ∀ a, P' a → P a)
    (hQ : ∀ a, Q a → Q' a) (hR : ∀ a, R a → R' a) : S.Replays P' f g Q' R' := by
  refine ⟨h.grows, fun a hfits ha hlost => ?_⟩
  obtain ⟨hfits', ⟨heq, hdone⟩ | ⟨hpaused, hstuck, hr, hsame⟩⟩ := h.step a hfits (hP a ha) hlost
  · exact ⟨hfits', .inl ⟨heq, fun hok => hQ _ (hdone hok)⟩⟩
  · exact ⟨hfits', .inr ⟨hpaused, hstuck, hR _ hr, hsame⟩⟩

/-- What a step is told apart by may be fixed. -/
theorem Setting.Replays.read {β : Type} (r : A → β)
    (b₀ : β)
    (h : ∀ b, S.Replays (fun a => P a ∧ r a = b) f g Q R) : S.Replays P f g Q R :=
  ⟨(h b₀).grows, fun a hfits ha hlost => (h (r a)).step a hfits ⟨ha, rfl⟩ hlost⟩

/-- A step that nothing makes pause. -/
theorem Setting.Replays.of_eq (hgrows : ∀ b, S.told b <+: S.told (g b).1)
    (hsee : ∀ a, P a → g (S.see a) = (S.see (f a).1, (f a).2))
    (hfits : ∀ a, S.fits a → P a → S.fits (f a).1)
    (hQ : ∀ a, P a → (f a).2 = S.done → Q (f a).1) : S.Replays P f g Q R :=
  ⟨hgrows, fun a hfits' ha _ => ⟨hfits a hfits' ha, .inl ⟨hsee a ha, hQ a ha⟩⟩⟩

/-- The same steps, put differently where it matters. -/
theorem Setting.Replays.congr (h : S.Replays P f g Q R) (hgrows : ∀ b, S.told b <+: S.told (g' b).1)
    (hf : ∀ a, P a → f' a = f a) (hg : ∀ a, P a ∨ R a → g' (S.see a) = g (S.see a)) :
    S.Replays P f' g' Q R := by
  refine ⟨hgrows, fun a hfits ha hlost => ?_⟩
  rw [hg a (.inl ha)] at hlost ⊢
  rw [hf a ha]
  obtain ⟨hfits', hok | ⟨hpaused, hstuck, hr, hsame⟩⟩ := h.step a hfits ha hlost
  · exact ⟨hfits', .inl hok⟩
  · exact ⟨hfits', .inr ⟨hpaused, hstuck, hr, by rw [hg _ (.inr hr), hsame]⟩⟩

/-- A loop that pauses between two of its turns alone. -/
theorem Setting.Replays.loop (hgrows : ∀ b, S.told b <+: S.told (g b).1) (μ : A → ℕ)
    (h : ∀ a, S.fits a → P a →
      (f a = (a, S.done) ∧ g (S.see a) = (S.see a, S.done) ∧ Q a) ∨
      (f a = (a, S.paused) ∧ S.stuck a) ∨
      ∃ a', S.fits a' ∧ P a' ∧ μ a' < μ a ∧ f a = f a' ∧ g (S.see a) = g (S.see a')) :
    S.Replays P f g Q P := by
  refine ⟨hgrows, fun a hfits ha hlost => ?_⟩
  induction hn : μ a using Nat.strong_induction_on generalizing a with
  | _ n ih =>
      obtain ⟨hf, hg, hq⟩ | ⟨hf, hstuck⟩ | ⟨a', hfits', ha', hlt, hf, hg⟩ := h a hfits ha
      · rw [hf]
        exact ⟨hfits, .inl ⟨hg, fun _ => hq⟩⟩
      · rw [hf]
        exact ⟨hfits, .inr ⟨rfl, hstuck, ha, rfl⟩⟩
      · rw [hg] at hlost ⊢
        rw [hf]
        exact ih (μ a') (hn ▸ hlt) a' hfits' ha' hlost rfl

/-- One of two steps. A pause keeps to the side that is taken. -/
theorem Setting.Replays.ite {p : A → Prop} {q : B → Prop} [DecidablePred p] [DecidablePred q]
    (hq : ∀ a, q (S.see a) ↔ p a) (h : S.Replays (fun a => P a ∧ p a) f g Q fun a => R a ∧ p a)
    (h' : S.Replays (fun a => P a ∧ ¬ p a) f' g' Q fun a => R a ∧ ¬ p a) :
    S.Replays P (fun a => if p a then f a else f' a) (fun b => if q b then g b else g' b) Q R := by
  refine ⟨fun b => ?_, fun a hfits ha hlost => ?_⟩
  · by_cases hb : q b
    · rw [if_pos hb]
      exact h.grows b
    · rw [if_neg hb]
      exact h'.grows b
  · by_cases hp : p a
    · rw [if_pos ((hq a).mpr hp)] at hlost
      rw [if_pos hp, if_pos ((hq a).mpr hp)]
      obtain ⟨hfits', hok | ⟨hpaused, hstuck, hr, hsame⟩⟩ := h.step a hfits ⟨ha, hp⟩ hlost
      · exact ⟨hfits', .inl hok⟩
      · refine ⟨hfits', .inr ⟨hpaused, hstuck, hr.1, ?_⟩⟩
        rw [if_pos ((hq _).mpr hr.2), hsame]
    · rw [if_neg (fun hb => hp ((hq a).mp hb))] at hlost
      rw [if_neg hp, if_neg (fun hb => hp ((hq a).mp hb))]
      obtain ⟨hfits', hok | ⟨hpaused, hstuck, hr, hsame⟩⟩ := h'.step a hfits ⟨ha, hp⟩ hlost
      · exact ⟨hfits', .inl hok⟩
      · refine ⟨hfits', .inr ⟨hpaused, hstuck, hr.1, ?_⟩⟩
        rw [if_neg (fun hb => hr.2 ((hq _).mp hb)), hsame]

end

/-! ## Steps and calls in order -/

variable [DecidableEq ε]

def andThen (done : ε) (r : A × ε) (k : A → A × ε) : A × ε := if r.2 = done then k r.1 else r

/-- Calls in order, up to one that does not get through: the calls that are left, that one
included. -/
def issue (done : ε) (run : C → A → A × ε) : List C → A → (List C × A) × ε
  | [], a => (([], a), done)
  | call :: calls, a =>
    let r := run call a
    if r.2 = done then issue done run calls r.1 else ((call :: calls, r.1), r.2)

theorem andThen_done {done : ε} {r : A × ε} (h : r.2 = done) (k : A → A × ε) :
    andThen done r k = k r.1 := if_pos h

theorem andThen_not {done : ε} {r : A × ε} (h : r.2 ≠ done) (k : A → A × ε) :
    andThen done r k = r := if_neg h

/-- Two steps, one after the other. Behind a pause in the second one the first one is passed
over. -/
theorem Setting.Replays.andThen {P Q Q' R R' R'' : A → Prop}
    {f f' : A → A × ε} {g g' : B → B × ε} (h : S.Replays P f g Q R) (h' : S.Replays Q f' g' Q' R')
    (hR : ∀ a, R a → R'' a)
    (hR' : ∀ a a', P a → (f a).2 = S.done → R' a' →
      R'' a' ∧ g (S.see a') = (S.see a', S.done)) :
    S.Replays P (fun a => andThen S.done (f a) f') (fun b => andThen S.done (g b) g') Q' R'' := by
  refine ⟨fun b => ?_, fun a hfits ha hlost => ?_⟩
  · by_cases hb : (g b).2 = S.done
    · rw [andThen_done hb]
      exact (h.grows b).trans (h'.grows _)
    · rw [andThen_not hb]
      exact h.grows b
  · have hfirst : (g (S.see a)).2 ≠ S.lost := by
      intro hg
      refine hlost ?_
      rw [andThen_not (fun hdone => S.lost_ne (hg.symm.trans hdone)), hg]
    obtain ⟨hfits', ⟨heq, hdone⟩ | ⟨hpaused, hstuck, hr, hsame⟩⟩ := h.step a hfits ha hfirst
    · by_cases hf : (f a).2 = S.done
      · have hg : (g (S.see a)).2 = S.done := by rw [heq, hf]
        rw [andThen_done hg, heq] at hlost
        obtain ⟨hfits'', hsecond⟩ := h'.step _ hfits' (hdone hf) hlost
        refine ⟨by rwa [andThen_done hf], ?_⟩
        rw [andThen_done hf, andThen_done hg, heq]
        obtain ⟨heq', hdone'⟩ | ⟨hpaused, hstuck, hr, hsame⟩ := hsecond
        · exact .inl ⟨heq', hdone'⟩
        · obtain ⟨hr', hagain⟩ := hR' a _ ha hf hr
          refine .inr ⟨hpaused, hstuck, hr', ?_⟩
          rw [hagain]
          exact (andThen_done rfl g').trans hsame
      · have hg : (g (S.see a)).2 ≠ S.done := by rwa [heq]
        refine ⟨by rwa [andThen_not hf], ?_⟩
        rw [andThen_not hf, andThen_not hg]
        exact .inl ⟨heq, fun hok => absurd hok hf⟩
    · have hf : (f a).2 ≠ S.done := by
        rw [hpaused]
        exact S.paused_ne
      refine ⟨by rwa [andThen_not hf], .inr ?_⟩
      rw [andThen_not hf]
      refine ⟨hpaused, hstuck, hR _ hr, ?_⟩
      simp only [hsame]

/-- Two steps of which the second one never pauses. -/
theorem Setting.Replays.andThen_firm {P Q Q' R : A → Prop} {f f' : A → A × ε} {g g' : B → B × ε}
    (h : S.Replays P f g Q R) (h' : S.Replays Q f' g' Q' fun _ => False) :
    S.Replays P (fun a => Resuming.andThen S.done (f a) f')
      (fun b => Resuming.andThen S.done (g b) g') Q' R :=
  h.andThen h' (fun _ hr => hr) fun _ _ _ _ hnever => hnever.elim

variable {P : A → Prop} {run : C → A → A × ε} {run' : C → B → B × ε}

/-- The calls that are left when a list of calls pauses come to the same end. -/
theorem Setting.issue_replays {calls : List C}
    (h : ∀ call ∈ calls, S.Replays P (run call) (run' call) P P) {a : A}
    (hfits : S.fits a) (ha : P a) (hlost : (issue S.done run' calls (S.see a)).2 ≠ S.lost) :
    S.fits (issue S.done run calls a).1.2 ∧ (issue S.done run calls a).1.1 <:+ calls ∧
      (issue S.done run' calls (S.see a) =
          (((issue S.done run calls a).1.1, S.see (issue S.done run calls a).1.2),
            (issue S.done run calls a).2) ∨
        (issue S.done run calls a).2 = S.paused ∧ S.stuck (issue S.done run calls a).1.2 ∧
          P (issue S.done run calls a).1.2 ∧
          issue S.done run' (issue S.done run calls a).1.1
              (S.see (issue S.done run calls a).1.2) =
            issue S.done run' calls (S.see a)) := by
  induction calls generalizing a with
  | nil => exact ⟨hfits, List.suffix_rfl, .inl rfl⟩
  | cons call calls ih =>
      have hcalls : ∀ call ∈ calls, S.Replays P (run call) (run' call) P P :=
        fun call hcall => h call (List.mem_cons_of_mem _ hcall)
      have hfirst : (run' call (S.see a)).2 ≠ S.lost := by
        intro hrun
        refine hlost ?_
        rw [issue, if_neg (fun hdone => S.lost_ne (hrun.symm.trans hdone))]
        exact hrun
      obtain ⟨hfits', hone⟩ := (h call List.mem_cons_self).step a hfits ha hfirst
      obtain ⟨heq, hdone⟩ | ⟨hpaused, hstuck, ha', hsame⟩ := hone
      · by_cases hrun : (run call a).2 = S.done
        · have hrun' : (run' call (S.see a)).2 = S.done := by rw [heq, hrun]
          have hmine : issue S.done run (call :: calls) a = issue S.done run calls (run call a).1 :=
            if_pos hrun
          have htheirs : issue S.done run' (call :: calls) (S.see a) =
              issue S.done run' calls (S.see (run call a).1) := by
            rw [issue, if_pos hrun', heq]
          rw [htheirs] at hlost ⊢
          rw [hmine]
          obtain ⟨hfits'', hsuffix, hrest⟩ := ih hcalls hfits' (hdone hrun) hlost
          exact ⟨hfits'', hsuffix.trans (List.suffix_cons _ _), hrest⟩
        · have hrun' : (run' call (S.see a)).2 ≠ S.done := by rwa [heq]
          rw [issue, if_neg hrun, issue, if_neg hrun']
          exact ⟨hfits', List.suffix_rfl, .inl (by rw [heq])⟩
      · have hrun : (run call a).2 ≠ S.done := by
          rw [hpaused]
          exact S.paused_ne
        rw [show issue S.done run (call :: calls) a = ((call :: calls, (run call a).1),
          (run call a).2) from if_neg hrun]
        refine ⟨hfits', List.suffix_rfl, .inr ⟨hpaused, hstuck, ha', ?_⟩⟩
        rw [issue, issue, hsame]

theorem Setting.issue_grows {calls : List C}
    (h : ∀ call ∈ calls, ∀ b, S.told b <+: S.told (run' call b).1) (b : B) :
    S.told b <+: S.told (issue S.done run' calls b).1.2 := by
  induction calls generalizing b with
  | nil => exact List.prefix_rfl
  | cons call calls ih =>
      have hfirst := h call List.mem_cons_self b
      rw [issue]
      split_ifs
      · exact hfirst.trans (ih (fun call hcall => h call (List.mem_cons_of_mem _ hcall)) _)
      · exact hfirst

end Resuming
