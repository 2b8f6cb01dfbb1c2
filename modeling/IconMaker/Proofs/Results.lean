import Mathlib.Data.List.Forall2

/-
  IconMaker.Proofs.Results — results that may be errors.

  What a step that is mapped, bound or taken for each element of a list gives, from what its
  parts give. Of several elements that fail the first one is reported (`mapM_eq_error_iff`).
-/

namespace IconMaker

variable {α β ε ε' : Type}

theorem map_eq_ok_iff {x : Except ε α} {f : α → β} {b : β} : x.map f = .ok b ↔ ∃ a, x = .ok a ∧ f a = b := by
  cases x <;> simp [Except.map]

theorem map_eq_error_iff {x : Except ε α} {f : α → β} {e : ε} : x.map f = .error e ↔ x = .error e := by
  cases x <;> simp [Except.map]

theorem mapError_eq_ok_iff {x : Except ε α} {f : ε → ε'} {a : α} : x.mapError f = .ok a ↔ x = .ok a := by
  cases x <;> simp [Except.mapError]

theorem mapError_eq_error_iff {x : Except ε α} {f : ε → ε'} {e' : ε'} :
    x.mapError f = .error e' ↔ ∃ e, x = .error e ∧ f e = e' := by
  cases x <;> simp [Except.mapError]

theorem bind_eq_ok_iff {x : Except ε α} {f : α → Except ε β} {b : β} :
    x.bind f = .ok b ↔ ∃ a, x = .ok a ∧ f a = .ok b := by
  cases x <;> simp [Except.bind]

theorem bind_eq_error_iff {x : Except ε α} {f : α → Except ε β} {e : ε} :
    x.bind f = .error e ↔ x = .error e ∨ ∃ a, x = .ok a ∧ f a = .error e := by
  cases x <;> simp [Except.bind]

theorem mapM_eq_ok_iff {f : α → Except ε β} {as : List α} {bs : List β} :
    as.mapM f = .ok bs ↔ List.Forall₂ (fun a b => f a = .ok b) as bs := by
  induction as generalizing bs with
  | nil => cases bs <;> simp [pure, Except.pure]
  | cons a as ih =>
    rw [List.mapM_cons]
    cases ha : f a with
    | error e =>
      constructor
      · intro h
        cases h
      · intro h
        cases h with
        | cons hb _ => rw [ha] at hb; cases hb
    | ok b =>
      cases has : as.mapM f with
      | error e =>
        constructor
        · intro h
          cases h
        · intro h
          cases h with
          | cons _ hbs =>
            rw [ih.2 hbs] at has
            cases has
      | ok bs' =>
        constructor
        · intro h
          cases h
          exact .cons ha (ih.1 has)
        · intro h
          cases h with
          | cons hb hbs =>
            rw [ha] at hb
            cases hb
            rw [ih.2 hbs] at has
            cases has
            rfl

/-- The first failure is the one that is reported. -/
theorem mapM_eq_error_iff {f : α → Except ε β} {as : List α} {e : ε} :
    as.mapM f = .error e ↔
      ∃ before a after, as = before ++ a :: after ∧ (∀ b ∈ before, ∃ c, f b = .ok c) ∧ f a = .error e := by
  induction as with
  | nil => simp [pure, Except.pure]
  | cons a as ih =>
    rw [List.mapM_cons]
    cases ha : f a with
    | error e' =>
      constructor
      · intro h
        cases h
        exact ⟨[], a, as, rfl, by simp, ha⟩
      · rintro ⟨before, a', after, has, hbefore, ha'⟩
        rcases before with _ | ⟨b, before⟩
        · cases has
          rw [ha] at ha'
          cases ha'
          rfl
        · cases has
          obtain ⟨c, hc⟩ := hbefore a (List.mem_cons_self ..)
          rw [ha] at hc
          cases hc
    | ok b =>
      have htail : (do let bs ← as.mapM f; pure (b :: bs) : Except ε (List β)) = .error e ↔ as.mapM f = .error e := by
        cases as.mapM f with
        | error e' => simp [bind, Except.bind]
        | ok bs => simp [bind, Except.bind, pure, Except.pure]
      refine htail.trans (ih.trans ?_)
      constructor
      · rintro ⟨before, a', after, rfl, hbefore, ha'⟩
        refine ⟨a :: before, a', after, rfl, ?_, ha'⟩
        intro b' hb'
        rcases List.mem_cons.1 hb' with rfl | hb'
        · exact ⟨b, ha⟩
        · exact hbefore b' hb'
      · rintro ⟨before, a', after, has, hbefore, ha'⟩
        rcases before with _ | ⟨b', before⟩
        · cases has
          rw [ha] at ha'
          cases ha'
        · cases has
          exact ⟨before, a', after, rfl, fun c hc => hbefore c (List.mem_cons_of_mem _ hc), ha'⟩

end IconMaker
