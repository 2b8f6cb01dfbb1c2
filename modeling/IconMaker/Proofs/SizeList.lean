import Mathlib.Data.List.Nodup
import Mathlib.Data.List.Perm.Basic
import Mathlib.Data.List.Range
import Mathlib.Tactic.Tauto
import IconMaker.SizeList

/-
  IconMaker.Proofs.SizeList — which lists of sizes are accepted, and what is said of the others.

  A list is accepted exactly if it has sizes and no two alike, and then as it is
  (`ofList_eq_ok_iff`, `exists_ofList_ok_iff`). There are 256 sizes, so no longer list is
  (`length_le`).
  - `firstRepeat_eq_some_iff`: the search finds the smallest index whose size occurs before it.
    What it has passed goes on the list of those seen, so the induction on the rest is for any
    such list.
  - `lists_are_judged`: so the first repetition to close is the one that is named.
-/

namespace IconMaker.SizeList

variable {l : List Size} {list : SizeList} {s : Size} {e : SizeError}

theorem firstRepeat_eq_none_iff {seen : List Size} : firstRepeat seen l = none ↔ l.Nodup ∧ ∀ s ∈ l, s ∉ seen := by
  constructor
  · exact nodup_of_firstRepeat
  · intro h
    induction l generalizing seen with
    | nil => rfl
    | cons s r ih =>
      obtain ⟨hnodup, hseen⟩ := h
      obtain ⟨hs, hr⟩ := List.nodup_cons.1 hnodup
      rw [firstRepeat, if_neg (hseen s (List.mem_cons_self ..))]
      refine ih ⟨hr, fun t ht hmem => ?_⟩
      rcases List.mem_cons.1 hmem with rfl | hmem
      · exact hs ht
      · exact hseen t (List.mem_cons_of_mem _ ht) hmem

/-- The sizes of a list are accepted again. -/
theorem ofList_sizes (list : SizeList) : ofList list.sizes = .ok list := by
  have hnone : firstRepeat [] list.sizes = none := firstRepeat_eq_none_iff.2 ⟨list.distinct, by simp⟩
  rw [ofList, dif_neg list.nonempty]
  split
  · rename_i s hs
    rw [hnone] at hs
    cases hs
  · rfl

theorem ofList_eq_ok_iff : ofList l = .ok list ↔ list.sizes = l := by
  constructor
  · intro h
    unfold ofList at h
    split at h
    · cases h
    · split at h
      · cases h
      · cases h
        rfl
  · intro h
    rw [← h]
    exact ofList_sizes list

theorem exists_ofList_ok_iff : (∃ list, ofList l = .ok list) ↔ l ≠ [] ∧ l.Nodup := by
  constructor
  · rintro ⟨list, h⟩
    rw [ofList_eq_ok_iff] at h
    rw [← h]
    exact ⟨list.nonempty, list.distinct⟩
  · rintro ⟨hne, hnodup⟩
    exact ⟨⟨l, hne, hnodup⟩, ofList_eq_ok_iff.2 rfl⟩

theorem exists_ofList_error_iff : (∃ e, ofList l = .error e) ↔ l = [] ∨ ¬ l.Nodup := by
  have hok := exists_ofList_ok_iff (l := l)
  cases h : ofList l with
  | error e =>
    rw [h] at hok
    simpa [Classical.or_iff_not_imp_left] using hok
  | ok list =>
    rw [h] at hok
    simpa [Classical.or_iff_not_imp_left] using hok

/-! ## How many sizes there can be -/

theorem length_le_of_nodup (h : l.Nodup) : l.length ≤ 256 := by
  have hnodup : (l.map Size.edge).Nodup := List.Pairwise.map Size.edge (fun _ _ hne he => hne (Size.ext he)) h
  have hsub : l.map Size.edge ⊆ List.range' 1 256 := by
    intro n hn
    obtain ⟨s, -, rfl⟩ := List.mem_map.1 hn
    have hpos := s.pos
    have hle := s.le_max
    unfold maxEdge at hle
    rw [List.mem_range'_1]
    omega
  have := hnodup.length_le_of_subset hsub
  rwa [List.length_map, List.length_range'] at this

theorem length_le (l : SizeList) : l.sizes.length ≤ 256 := length_le_of_nodup l.distinct

/-! ## Which size is named -/

/-- The size at the index occurs before it. -/
def RepeatsAt (l : List Size) (i : Nat) (s : Size) : Prop := l[i]? = some s ∧ s ∈ l.take i

/-- The size is the one at the smallest index whose size occurs before it. -/
def FirstRepeated (l : List Size) (s : Size) : Prop := ∃ i, RepeatsAt l i s ∧ ∀ k < i, ∀ t, ¬ RepeatsAt l k t

/-- The size at the index occurs before it, or before the whole list. -/
def RepeatsAfter (seen l : List Size) (i : Nat) (s : Size) : Prop := l[i]? = some s ∧ (s ∈ seen ∨ s ∈ l.take i)

theorem repeatsAfter_zero {seen r : List Size} {x : Size} : RepeatsAfter seen (x :: r) 0 s ↔ s = x ∧ x ∈ seen := by
  unfold RepeatsAfter
  constructor
  · rintro ⟨hs, hseen⟩
    cases hs
    simpa using hseen
  · rintro ⟨rfl, hseen⟩
    exact ⟨rfl, Or.inl hseen⟩

theorem repeatsAfter_succ {seen r : List Size} {x : Size} {i : Nat} :
    RepeatsAfter seen (x :: r) (i + 1) s ↔ RepeatsAfter (x :: seen) r i s := by
  unfold RepeatsAfter
  rw [List.getElem?_cons_succ, List.take_succ_cons, List.mem_cons, List.mem_cons]
  tauto

theorem firstRepeat_eq_some_iff {seen : List Size} : firstRepeat seen l = some s ↔
    ∃ i, RepeatsAfter seen l i s ∧ ∀ k < i, ∀ t, ¬ RepeatsAfter seen l k t := by
  induction l generalizing seen with
  | nil => simp [firstRepeat, RepeatsAfter]
  | cons x r ih =>
    unfold firstRepeat
    split
    · rename_i hx
      have hzero : RepeatsAfter seen (x :: r) 0 x := repeatsAfter_zero.2 ⟨rfl, hx⟩
      constructor
      · intro h
        cases h
        exact ⟨0, hzero, fun k hk => absurd hk (Nat.not_lt_zero k)⟩
      · rintro ⟨i, hi, hfirst⟩
        cases i with
        | zero => rw [(repeatsAfter_zero.1 hi).1]
        | succ i => exact absurd hzero (hfirst 0 (Nat.succ_pos i) x)
    · rename_i hx
      rw [ih]
      constructor
      · rintro ⟨i, hi, hfirst⟩
        refine ⟨i + 1, repeatsAfter_succ.2 hi, fun k hk t ht => ?_⟩
        cases k with
        | zero => exact hx (repeatsAfter_zero.1 ht).2
        | succ k => exact hfirst k (Nat.lt_of_succ_lt_succ hk) t (repeatsAfter_succ.1 ht)
      · rintro ⟨i, hi, hfirst⟩
        cases i with
        | zero => exact absurd (repeatsAfter_zero.1 hi).2 hx
        | succ i =>
          refine ⟨i, repeatsAfter_succ.1 hi, fun k hk t ht => ?_⟩
          exact hfirst (k + 1) (Nat.succ_lt_succ hk) t (repeatsAfter_succ.2 ht)

theorem firstRepeat_iff : firstRepeat [] l = some s ↔ FirstRepeated l s := by
  rw [firstRepeat_eq_some_iff]
  simp only [FirstRepeated, RepeatsAt, RepeatsAfter, List.not_mem_nil, false_or]

theorem ofList_eq_error_iff :
    ofList l = .error e ↔ l = [] ∧ e = .empty ∨ ∃ d, FirstRepeated l d ∧ e = .duplicate d := by
  simp only [← firstRepeat_iff]
  unfold ofList
  split
  · rename_i hl
    subst hl
    simp [firstRepeat, eq_comm]
  · rename_i hl
    split
    · rename_i d hd
      simp [hl, hd, eq_comm]
    · rename_i hd
      simp [hl, hd]

theorem exists_duplicate_of_long (h : 256 < l.length) : ∃ d, FirstRepeated l d ∧ ofList l = .error (.duplicate d) := by
  have hnodup : ¬ l.Nodup := fun hl => Nat.not_lt.2 (length_le_of_nodup hl) h
  obtain ⟨e, he⟩ := exists_ofList_error_iff.2 (Or.inr hnodup)
  rcases ofList_eq_error_iff.1 he with ⟨rfl, -⟩ | ⟨d, hd, rfl⟩
  · exact absurd h (by decide)
  · exact ⟨d, hd, he⟩

/-- Acceptance does not depend on the order. -/
theorem exists_ofList_ok_of_perm {l' : List Size} (h : l.Perm l') :
    (∃ list, ofList l' = .ok list) ↔ ∃ list, ofList l = .ok list := by
  have hnil : l' = [] ↔ l = [] := by rw [← List.length_eq_zero_iff, ← h.length_eq, List.length_eq_zero_iff]
  rw [exists_ofList_ok_iff, exists_ofList_ok_iff, h.nodup_iff, ne_eq, ne_eq, hnil]

/-- A list is accepted exactly if it has sizes and no two alike, and then it is kept as it is. Of
    the others, the empty one is refused as empty, and each with a repetition for the size at the
    smallest index whose size occurs before it. So no list of more than 256 sizes is accepted, and
    a list is accepted in each order or in none. -/
theorem lists_are_judged (l : List Size) :
    ((∃ list, ofList l = .ok list) ↔ l ≠ [] ∧ l.Nodup) ∧
    (∀ list, ofList l = .ok list → list.sizes = l) ∧
    (ofList l = .error .empty ↔ l = []) ∧
    (∀ d, ofList l = .error (.duplicate d) ↔ FirstRepeated l d) ∧
    (∀ e, ofList l = .error e → e = .empty ∨ ∃ d, e = .duplicate d) ∧
    (256 < l.length → ∃ d, FirstRepeated l d ∧ ofList l = .error (.duplicate d)) ∧
    ∀ l', l.Perm l' → ((∃ list, ofList l' = .ok list) ↔ ∃ list, ofList l = .ok list) := by
  refine ⟨exists_ofList_ok_iff, fun list h => ofList_eq_ok_iff.1 h, ?_, fun d => ?_, fun e h => ?_,
    exists_duplicate_of_long, fun l' => exists_ofList_ok_of_perm⟩
  · simp [ofList_eq_error_iff]
  · simp [ofList_eq_error_iff]
  · rcases ofList_eq_error_iff.1 h with ⟨-, rfl⟩ | ⟨d, -, rfl⟩
    · exact Or.inl rfl
    · exact Or.inr ⟨d, rfl⟩

def sixteen : Size := ⟨16, Nat.succ_pos 15, Nat.le_of_ble_eq_true rfl⟩

def thirtyTwo : Size := ⟨32, Nat.succ_pos 31, Nat.le_of_ble_eq_true rfl⟩

/-- 32 is repeated within the repetition of 16. -/
theorem the_first_repetition_to_close_is_named :
    FirstRepeated [sixteen, thirtyTwo, thirtyTwo, sixteen] thirtyTwo ∧
    ofList [] = .error .empty ∧
    256 < (List.replicate 257 sixteen).length ∧
    (∃ d, ofList (List.replicate 257 sixteen) = .error (.duplicate d)) ∧
    [sixteen, thirtyTwo].Perm [thirtyTwo, sixteen] ∧
    ∃ list, ofList [thirtyTwo, sixteen] = .ok list ∧ list.sizes = [thirtyTwo, sixteen] := by
  obtain ⟨-, -, -, hnamed, -⟩ := lists_are_judged [sixteen, thirtyTwo, thirtyTwo, sixteen]
  obtain ⟨-, -, hempty, -⟩ := lists_are_judged []
  obtain ⟨-, -, -, -, -, hlong, -⟩ := lists_are_judged (List.replicate 257 sixteen)
  obtain ⟨-, -, -, -, -, -, hperm⟩ := lists_are_judged [sixteen, thirtyTwo]
  have hlength : 256 < (List.replicate 257 sixteen).length := by
    rw [List.length_replicate]
    decide
  have hswap : [sixteen, thirtyTwo].Perm [thirtyTwo, sixteen] := .swap ..
  obtain ⟨list, hlist⟩ := (hperm _ hswap).2 ⟨_, rfl⟩
  obtain ⟨d, -, hd⟩ := hlong hlength
  exact ⟨(hnamed thirtyTwo).1 rfl, hempty.2 rfl, hlength, ⟨d, hd⟩, hswap, list, hlist,
    (lists_are_judged _).2.1 list hlist⟩

end IconMaker.SizeList
