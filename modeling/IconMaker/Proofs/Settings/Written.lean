import IconMaker.Proofs.Settings.Schema
import IconMaker.Proofs.Size

/-
  IconMaker.Proofs.Settings.Written — settings that are written down are read back.

  `Writes` is a text with one line for each thing that is wanted, in any order and in any
  notation of its value; between the lines there may be others that say nothing. Nothing in such
  a text comes near the limits of the reader, so the rules of the notation do not matter
  (`lines_of_flat`), and each line sets what it says, whatever was set before it. Whatever is
  wanted can be written so (`exists_writes`).
-/

namespace IconMaker.Settings

open Toml

/-! ## Written settings -/

/-- What is wanted. Paths are texts here. -/
structure Wanted where
  input : Option (List Char)
  output : Option (List Char)
  sizes : Option (List Size)
  filter : Option Filter
  deriving DecidableEq, Repr

namespace Wanted

def settings (w : Wanted) : Settings := ⟨w.input.map Text.utf8, w.output.map Text.utf8, w.sizes, w.filter⟩

/-- The keys of what is wanted. -/
def keys (w : Wanted) : List (List Char) :=
  (if w.input.isSome then ["input".toList] else []) ++ (if w.output.isSome then ["output".toList] else []) ++
    (if w.sizes.isSome then ["sizes".toList] else []) ++ if w.filter.isSome then ["filter".toList] else []

end Wanted

/-- A value that says what is wanted under a key. -/
inductive Spells (w : Wanted) : List Char → Value → Prop
  | input {m : Mark} {t : List Char} : w.input = some t → Spells w "input".toList (.scalar m (.string t))
  | output {m : Mark} {t : List Char} : w.output = some t → Spells w "output".toList (.scalar m (.string t))
  | sizes {m : Mark} {vs : List Value} {ns : List Size} : w.sizes = some ns → List.Forall₂ IsSize vs ns →
      Spells w "sizes".toList (.array m vs)
  | filter {m : Mark} {f : Filter} : w.filter = some f →
      Spells w "filter".toList (.scalar m (.string f.name.toList))

/-- A text that has a line for everything that is wanted, and for nothing else. -/
def Writes (ρ : Rules) (text : List Char) (w : Wanted) : Prop :=
  ∃ s, ∃ es : Entries, Marked text s ∧ Lines ρ s (es.map fun e => .pair [] e.1 e.2) ∧
    (es.map fun e => e.1.name).Perm w.keys ∧ ∀ e ∈ es, Spells w e.1.name e.2

variable {ρ ρ' : Rules} {s r text : List Char} {x : Scalar} {v : Value} {vs : List Value} {inner inner' : Notation Value}
  {xs : List Statement} {es : Entries} {w : Wanted} {depth : Nat} {k : Key} {names : List (List Char)}

/-! ## Flat documents -/

/-- A string or an integer, or an array of them. -/
def IsFlat (v : Value) : Prop :=
  (∃ m x, v = .scalar m x ∧ ∀ d, x ≠ .float d) ∨
  ∃ m vs, v = .array m vs ∧ ∀ u ∈ vs, ∃ m x, u = .scalar m x ∧ ∀ d, x ≠ .float d

theorem scalarAt_of_other (h : ScalarAt ρ s x r) (hx : ∀ d, x ≠ .float d) : ScalarAt ρ' s x r := by
  cases h with
  | string h => exact .string h
  | plain h =>
    refine .plain ?_
    cases h with
    | yes => exact .yes
    | no => exact .no
    | moment h => exact .moment h
    | number h =>
      refine .number ?_
      cases h with
      | infinity | nan | float => exact absurd rfl (hx _)
      | integer hσ ht hfits => exact .integer hσ ht hfits
      | based hb ht hfits => exact .based hb ht hfits

theorem valueAt_scalar (h : ScalarAt ρ s x r) (depth : Nat) : ValueAt ρ depth s (.scalar (markOf s) x) r := by
  cases depth with
  | zero => exact ⟨x, h, rfl⟩
  | succ depth => exact .scalar h

theorem scalarAt_of_valueAt {m : Mark} (h : ValueAt ρ depth s (.scalar m x) r) :
    ScalarAt ρ s x r ∧ m = markOf s := by
  cases depth with
  | zero =>
    obtain ⟨x', hx, he⟩ := h
    cases he
    exact ⟨hx, rfl⟩
  | succ depth =>
    cases h with
    | scalar h => exact ⟨h, rfl⟩

theorem items_imp (h : Items inner s vs r) (himp : ∀ v ∈ vs, ∀ s r, inner s v r → inner' s v r) :
    Items inner' s vs r := by
  induction h with
  | close hg => exact .close hg
  | last hg hv hg' => exact .last hg (himp _ (List.mem_cons_self ..) _ _ hv) hg'
  | more hg hv hg' _ ih =>
    exact .more hg (himp _ (List.mem_cons_self ..) _ _ hv) hg' (ih fun v hv' => himp v (List.mem_cons_of_mem _ hv'))

/-- The notation of a flat value does not depend on the rules, as long as values nest at all. -/
theorem valueAt_of_flat (h : ValueAt ρ depth s v r) (hv : IsFlat v) (depth' : Nat) :
    ValueAt ρ' (depth' + 1) s v r := by
  rcases hv with ⟨m, x, rfl, hx⟩ | ⟨m, vs, rfl, hvs⟩
  · obtain ⟨hscalar, rfl⟩ := scalarAt_of_valueAt h
    exact valueAt_scalar (scalarAt_of_other hscalar hx) _
  · cases depth with
    | zero =>
      obtain ⟨x, -, he⟩ := h
      cases he
    | succ depth =>
      cases h with
      | array hitems =>
        refine .array (items_imp hitems ?_)
        intro u hu s r hvalue
        obtain ⟨m, x, rfl, hx⟩ := hvs u hu
        obtain ⟨hscalar, rfl⟩ := scalarAt_of_valueAt hvalue
        exact valueAt_scalar (scalarAt_of_other hscalar hx) _

/-- Lines with flat values and simple keys are within the limits of the reader. -/
theorem lines_of_flat (h : Lines ρ s xs) (hxs : ∀ x ∈ xs, ∃ k v, x = .pair [] k v ∧ IsFlat v) :
    Lines (Rules.limited true) s xs := by
  induction h with
  | done => exact .done
  | blank he _ ih => exact .blank he (ih hxs)
  | statement hw hx he _ ih =>
    refine .statement hw ?_ he (ih fun x hx => hxs x (List.mem_cons_of_mem _ hx))
    obtain ⟨k, v, rfl, hflat⟩ := hxs _ (List.mem_cons_self ..)
    cases hx with
    | pair hp =>
      cases hp with
      | mk hk hw₁ hv hw₂ => exact .pair (.mk ⟨hk.1, by decide⟩ hw₁ (valueAt_of_flat hv hflat 78) hw₂)

theorem isFlat_of_sizes {ns : List Size} (h : List.Forall₂ IsSize vs ns) :
    ∀ u ∈ vs, ∃ m x, u = .scalar m x ∧ ∀ d, x ≠ .float d := by
  induction h with
  | nil => simp
  | cons hu _ ih =>
    intro u' hu'
    rcases List.mem_cons.1 hu' with rfl | hu'
    · cases hu with
      | edge | text => exact ⟨_, _, rfl, by simp⟩
    · exact ih u' hu'

theorem Spells.isFlat {n : List Char} (h : Spells w n v) : IsFlat v := by
  cases h with
  | input | output | filter => exact Or.inl ⟨_, _, rfl, by simp⟩
  | sizes _ hvs => exact Or.inr ⟨_, _, rfl, isFlat_of_sizes hvs⟩

/-! ## Their tree -/

theorem get?_eq_none {n : List Char} (h : n ∉ es.map fun e => e.1.name) : es.get? n = none := by
  simp only [Entries.get?, Option.map_eq_none_iff, List.find?_eq_none, beq_iff_eq]
  intro e he hn
  exact h (List.mem_map.2 ⟨e, he, hn⟩)

/-- Entries with different keys stay as they are written. -/
theorem builds_of_nodup {lenient : Bool} (before es : Entries) (h : ((before ++ es).map fun e => e.1.name).Nodup) :
    Builds lenient [] before (es.map fun e => .pair [] e.1 e.2) (before ++ es) := by
  induction es generalizing before with
  | nil =>
    rw [List.append_nil]
    exact .nil
  | cons e es ih =>
    have hnew : before.get? e.1.name = none := by
      refine get?_eq_none ?_
      intro hmem
      rw [List.map_append, List.nodup_append] at h
      exact h.2.2 _ hmem _ (List.mem_map.2 ⟨e, List.mem_cons_self .., rfl⟩) rfl
    have hassoc : before ++ e :: es = (before ++ [e]) ++ es := by simp
    rw [hassoc] at h ⊢
    exact .cons (.pair (.here (.here ⟨by simp, hnew, rfl⟩))) (ih (before ++ [e]) h)

/-! ## What they set -/

/-- Something, if its name is in the list. -/
def pick {α : Type} (n : List Char) (names : List (List Char)) (o : Option α) : Option α :=
  if n ∈ names then o else none

/-- What is wanted under some of the keys. -/
def Wanted.settingsUnder (w : Wanted) (names : List (List Char)) : Settings where
  input := pick "input".toList names (w.input.map Text.utf8)
  output := pick "output".toList names (w.output.map Text.utf8)
  sizes := pick "sizes".toList names w.sizes
  filter := pick "filter".toList names w.filter

theorem ofName?_name (f : Filter) : Filter.ofName? f.name.toList = some f := by
  cases f <;> decide

section Picking

variable {α : Type} {n m : List Char}

theorem pick_self (n : List Char) (names : List (List Char)) (o : Option α) : pick n (n :: names) o = o :=
  if_pos (List.mem_cons_self ..)

theorem pick_ne (h : n ≠ m) (names : List (List Char)) (o : Option α) : pick n (m :: names) o = pick n names o := by
  simp [pick, h]

theorem pick_eq_self {o : Option α} (h : o.isSome = true → n ∈ names) : pick n names o = o := by
  cases o with
  | none => simp [pick]
  | some a => exact if_pos (h rfl)

end Picking

theorem settingsUnder_input (w : Wanted) (names : List (List Char)) : w.settingsUnder ("input".toList :: names) =
    { w.settingsUnder names with input := w.input.map Text.utf8 } := by
  simp only [Wanted.settingsUnder, pick_self, pick_ne (show "output".toList ≠ "input".toList by decide),
    pick_ne (show "sizes".toList ≠ "input".toList by decide), pick_ne (show "filter".toList ≠ "input".toList by decide)]

theorem settingsUnder_output (w : Wanted) (names : List (List Char)) : w.settingsUnder ("output".toList :: names) =
    { w.settingsUnder names with output := w.output.map Text.utf8 } := by
  simp only [Wanted.settingsUnder, pick_self, pick_ne (show "input".toList ≠ "output".toList by decide),
    pick_ne (show "sizes".toList ≠ "output".toList by decide), pick_ne (show "filter".toList ≠ "output".toList by decide)]

theorem settingsUnder_sizes (w : Wanted) (names : List (List Char)) : w.settingsUnder ("sizes".toList :: names) =
    { w.settingsUnder names with sizes := w.sizes } := by
  simp only [Wanted.settingsUnder, pick_self, pick_ne (show "input".toList ≠ "sizes".toList by decide),
    pick_ne (show "output".toList ≠ "sizes".toList by decide), pick_ne (show "filter".toList ≠ "sizes".toList by decide)]

theorem settingsUnder_filter (w : Wanted) (names : List (List Char)) : w.settingsUnder ("filter".toList :: names) =
    { w.settingsUnder names with filter := w.filter } := by
  simp only [Wanted.settingsUnder, pick_self, pick_ne (show "input".toList ≠ "filter".toList by decide),
    pick_ne (show "output".toList ≠ "filter".toList by decide), pick_ne (show "sizes".toList ≠ "filter".toList by decide)]

/-- An entry sets what is wanted under its key, whatever was set before. -/
theorem sets_of_spells (h : Spells w k.name v) (names : List (List Char)) :
    Sets k v (w.settingsUnder names) (w.settingsUnder (k.name :: names)) := by
  generalize hn : k.name = n at h ⊢
  cases h with
  | input hw =>
    rw [settingsUnder_input, hw]
    exact .input hn
  | output hw =>
    rw [settingsUnder_output, hw]
    exact .output hn
  | sizes hw hvs =>
    rw [settingsUnder_sizes, hw]
    exact .sizes hn .array hvs
  | @filter _ f hw =>
    rw [settingsUnder_filter, hw]
    exact .filter hn (.name (ofName?_name f))

theorem verdict_of_spells (h : ∀ e ∈ es, Spells w e.1.name e.2) (names : List (List Char)) :
    Verdict (w.settingsUnder names) es (.ok (w.settingsUnder ((es.map fun e => e.1.name).reverse ++ names))) := by
  induction es generalizing names with
  | nil => exact .done
  | cons e es ih =>
    have hrest := ih (fun e' he => h e' (List.mem_cons_of_mem _ he)) (e.1.name :: names)
    rw [List.map_cons, List.reverse_cons, List.append_assoc, List.singleton_append]
    exact .sets (sets_of_spells (h e (List.mem_cons_self ..)) names) hrest

theorem settingsUnder_keys (h : ∀ n ∈ w.keys, n ∈ names) : w.settingsUnder names = w.settings := by
  have hkey : ∀ n, n ∈ w.keys → n ∈ names := h
  simp only [Wanted.keys, List.mem_append] at hkey
  unfold Wanted.settingsUnder Wanted.settings
  rw [pick_eq_self, pick_eq_self, pick_eq_self, pick_eq_self]
  · intro hw
    exact hkey _ (Or.inr (by simp [hw]))
  · intro hw
    exact hkey _ (Or.inl (Or.inr (by simp [hw])))
  · intro hw
    rw [Option.isSome_map] at hw
    exact hkey _ (Or.inl (Or.inl (Or.inr (by simp [hw]))))
  · intro hw
    rw [Option.isSome_map] at hw
    exact hkey _ (Or.inl (Or.inl (Or.inl (by simp [hw]))))

theorem nodup_keys (w : Wanted) : w.keys.Nodup := by
  have hif : ∀ (b : Bool) (n : List Char), List.Sublist (if b then [n] else []) [n] := by
    intro b n
    cases b <;> simp
  have hsub : List.Sublist w.keys ["input".toList, "output".toList, "sizes".toList, "filter".toList] :=
    (((hif _ _).append (hif _ _)).append (hif _ _)).append (hif _ _)
  exact hsub.nodup (by decide)

/-- Settings that are written down, in any notation and in any order, are read back as they are. -/
theorem written_settings_are_read (h : Writes ρ text w) : parse text = .ok w.settings := by
  obtain ⟨s, es, hmark, hlines, hperm, hspells⟩ := h
  have hflat : Lines (Rules.limited true) s (es.map fun e => .pair [] e.1 e.2) := by
    refine lines_of_flat hlines ?_
    intro x hx
    obtain ⟨e, he, rfl⟩ := List.mem_map.1 hx
    exact ⟨_, _, rfl, (hspells e he).isFlat⟩
  have hnodup : (es.map fun e => e.1.name).Nodup := hperm.nodup_iff.2 (nodup_keys w)
  have hdoc : Document (Rules.limited true) text es := ⟨s, _, hmark, hflat, builds_of_nodup [] es hnodup⟩
  have hverdict : Verdict empty es (.ok w.settings) := by
    have hkeys : w.settingsUnder ((es.map fun e => e.1.name).reverse ++ []) = w.settings := by
      refine settingsUnder_keys ?_
      intro n hn
      rw [List.append_nil, List.mem_reverse, hperm.mem_iff]
      exact hn
    rw [← hkeys]
    exact verdict_of_spells hspells []
  rw [parse_of_entries (parse_of_document hdoc), ofEntries, ofEntries_iff.2 hverdict]
  rfl

def firstLine : List Char := ['i', 'n', 'p', 'u', 't', '=', '\'', 'a', '\'', ' ', '#', ' ', 'b', '\r', '\n']

def secondLine : List Char := ['s', 'i', 'z', 'e', 's', '=', '[', '0', 'x', '1', '0', ']']

/-- Two lines, with a comment behind the first and the size in hexadecimal. -/
theorem two_lines_are_read :
    Writes (Rules.limited false) (firstLine ++ secondLine) ⟨some ['a'], none, some [⟨16, by decide, by decide⟩], none⟩ ∧
    parse (firstLine ++ secondLine) = .ok ⟨some (Text.utf8 ['a']), none, some [⟨16, by decide, by decide⟩], none⟩ := by
  have hpath : ValueAt (Rules.limited false) maxDepth (firstLine.drop 6 ++ secondLine) (.scalar 21 (.string ['a']))
      (firstLine.drop 9 ++ secondLine) :=
    .scalar (.string (.literal (.plain rfl (by decide) (by simp) (.close _))))
  have hdigits : Digits (fun c => (hexValue? c).isSome) ['1', '0'] ['1', '0'] := .more rfl (.one rfl)
  have hnumber : ScalarAt (Rules.limited false) (['0', 'x', '1', '0'] ++ [']']) (.integer 16) [']'] :=
    .plain (.number (.based .sixteen hdigits (by decide)))
  have hsizes : ValueAt (Rules.limited false) maxDepth (secondLine.drop 6) (.array 6 [.scalar 5 (.integer 16)]) [] :=
    .array (.last (.done _) (.scalar hnumber) (.done _))
  have hline : Stated (Rules.limited false) (firstLine ++ secondLine)
      (.pair [] ⟨"input".toList, 27⟩ (.scalar 21 (.string ['a']))) (firstLine.drop 9 ++ secondLine) :=
    .pair (.mk ⟨.last (.bare (t := ['i', 'n', 'p', 'u', 't']) (by decide) (List.all_eq_true.1 rfl)) (.refl _), by decide⟩
      (.refl _) hpath (.refl _))
  have hline' : Stated (Rules.limited false) secondLine
      (.pair [] ⟨"sizes".toList, 12⟩ (.array 6 [.scalar 5 (.integer 16)])) [] :=
    .pair (.mk ⟨.last (.bare (t := ['s', 'i', 'z', 'e', 's']) (by decide) (List.all_eq_true.1 rfl)) (.refl _), by decide⟩
      (.refl _) hsizes (.refl _))
  have hend : LineEnd (firstLine.drop 9 ++ secondLine) secondLine :=
    ⟨_, _, .cons rfl (.refl _), Or.inr ⟨[' ', 'b'], List.all_eq_true.1 rfl, rfl⟩, .line (.carriageReturn _)⟩
  have hwrites : Writes (Rules.limited false) (firstLine ++ secondLine)
      ⟨some ['a'], none, some [⟨16, by decide, by decide⟩], none⟩ := by
    refine ⟨_, [(⟨"input".toList, 27⟩, .scalar 21 (.string ['a'])),
      (⟨"sizes".toList, 12⟩, .array 6 [.scalar 5 (.integer 16)])],
      Or.inl rfl, ?_, .refl _, ?_⟩
    · exact .statement (.refl _) hline hend (.statement (.refl _) hline' ⟨_, _, .refl _, Or.inl rfl, .text⟩ .done)
    · intro e he
      simp only [List.mem_cons, List.not_mem_nil, or_false] at he
      rcases he with rfl | rfl
      · exact .input rfl
      · exact .sizes rfl (.cons (.edge ⟨16, by decide, by decide⟩) .nil)
  exact ⟨hwrites, written_settings_are_read hwrites⟩

/-! ## There is such a text -/

/-- Characters that cannot stand for themselves have a number of two digits. -/
theorem exists_escape {c : Char} (h : isPlain c = false ∨ c = '"' ∨ c = '\\') : ∃ e, Escape e c := by
  have hsmall : c.toNat < 128 := by
    rcases h with h | rfl | rfl
    · simp only [isPlain, Bool.or_eq_false_iff, decide_eq_false_iff_not] at h
      exact Nat.not_le.1 h.2
    · decide
    · decide
  have hall : ∀ n < 128, (hexNumber? ['0', '0', Nat.digitChar (n / 16), Nat.digitChar (n % 16)]).bind character? =
      some (Char.ofNat n) := by
    decide
  have hc := hall _ hsmall
  rw [Char.ofNat_toNat] at hc
  exact ⟨_, .short hc⟩

theorem exists_oneLine (cs : List Char) : ∃ t, ∀ r, OneLine '"' true (t ++ r) cs r := by
  induction cs with
  | nil => exact ⟨['"'], fun r => .close r⟩
  | cons c cs ih =>
    obtain ⟨t, ht⟩ := ih
    by_cases hc : isPlain c = false ∨ c = '"' ∨ c = '\\'
    · obtain ⟨e, he⟩ := exists_escape hc
      refine ⟨'\\' :: (e ++ t), fun r => ?_⟩
      rw [List.cons_append, List.append_assoc]
      exact .escape rfl he (ht r)
    · simp only [not_or, Bool.not_eq_false] at hc
      exact ⟨c :: t, fun r => .plain hc.1 hc.2.1 (fun _ => hc.2.2) (ht r)⟩

/-- Every string can be written. -/
theorem exists_string (ρ : Rules) (depth : Nat) (cs : List Char) :
    ∃ t, ∀ r, ∃ m, ValueAt ρ depth (t ++ r) (.scalar m (.string cs)) r := by
  obtain ⟨t, ht⟩ := exists_oneLine cs
  exact ⟨'"' :: t, fun r => ⟨_, valueAt_scalar (.string (.basic (ht r))) depth⟩⟩

/-- An array of values that can be written can be written. -/
theorem exists_items {α : Type} {P : Value → α → Prop} (as : List α)
    (h : ∀ a, ∃ t, ∀ r, ∃ v, ValueAt ρ depth (t ++ r) v r ∧ P v a) :
    ∃ t, ∀ r, ∃ vs, Items (ValueAt ρ depth) (t ++ r) vs r ∧ List.Forall₂ P vs as := by
  induction as with
  | nil => exact ⟨[']'], fun r => ⟨[], .close (.done _), .nil⟩⟩
  | cons a as ih =>
    obtain ⟨t, ht⟩ := ih
    obtain ⟨t₁, ht₁⟩ := h a
    refine ⟨t₁ ++ ',' :: t, fun r => ?_⟩
    obtain ⟨vs, hvs, hall⟩ := ht r
    obtain ⟨v, hv, hP⟩ := ht₁ (',' :: (t ++ r))
    refine ⟨v :: vs, ?_, .cons hP hall⟩
    rw [List.append_assoc, List.cons_append]
    exact .more (.done _) hv (.done _) hvs

theorem exists_size (ρ : Rules) (depth : Nat) (n : Size) :
    ∃ t, ∀ r, ∃ v, ValueAt ρ depth (t ++ r) v r ∧ IsSize v n := by
  obtain ⟨t, ht⟩ := exists_string ρ depth n.text
  refine ⟨t, fun r => ?_⟩
  obtain ⟨m, hm⟩ := ht r
  exact ⟨_, hm, .text (Size.parse_text n)⟩

/-- A text for what is wanted under a key. -/
def Sayable (ρ : Rules) (w : Wanted) (n : List Char) : Prop :=
  ∃ t, ∀ r, ∃ v, ValueAt ρ ρ.nesting (t ++ r) v r ∧ Spells w n v

theorem mem_keys {n : List Char} (h : n ∈ w.keys) :
    (n = "input".toList ∧ ∃ t, w.input = some t) ∨ (n = "output".toList ∧ ∃ t, w.output = some t) ∨
    (n = "sizes".toList ∧ ∃ ns, w.sizes = some ns) ∨ n = "filter".toList ∧ ∃ f, w.filter = some f := by
  simp only [Wanted.keys, List.mem_append, List.mem_ite_nil_right, List.mem_singleton, Option.isSome_iff_exists] at h
  rcases h with ((⟨hw, rfl⟩ | ⟨hw, rfl⟩) | ⟨hw, rfl⟩) | ⟨hw, rfl⟩
  · exact Or.inl ⟨rfl, hw⟩
  · exact Or.inr (Or.inl ⟨rfl, hw⟩)
  · exact Or.inr (Or.inr (Or.inl ⟨rfl, hw⟩))
  · exact Or.inr (Or.inr (Or.inr ⟨rfl, hw⟩))

theorem sayable_of_mem_keys (hρ : 0 < ρ.nesting) {n : List Char} (h : n ∈ w.keys) : Sayable ρ w n := by
  rcases mem_keys h with ⟨rfl, cs, hw⟩ | ⟨rfl, cs, hw⟩ | ⟨rfl, ns, hw⟩ | ⟨rfl, f, hw⟩
  · obtain ⟨t, ht⟩ := exists_string ρ ρ.nesting cs
    exact ⟨t, fun r => ⟨_, (ht r).choose_spec, .input hw⟩⟩
  · obtain ⟨t, ht⟩ := exists_string ρ ρ.nesting cs
    exact ⟨t, fun r => ⟨_, (ht r).choose_spec, .output hw⟩⟩
  · obtain ⟨depth, hdepth⟩ := Nat.exists_eq_add_of_lt hρ
    obtain ⟨t, ht⟩ := exists_items ns (exists_size ρ depth)
    refine ⟨'[' :: t, fun r => ?_⟩
    obtain ⟨vs, hvs, hall⟩ := ht r
    refine ⟨.array (markOf ('[' :: (t ++ r))) vs, ?_, .sizes hw hall⟩
    rw [hdepth, Nat.zero_add]
    exact .array hvs
  · obtain ⟨t, ht⟩ := exists_string ρ ρ.nesting f.name.toList
    exact ⟨t, fun r => ⟨_, (ht r).choose_spec, .filter hw⟩⟩

theorem bare_of_mem_keys {n : List Char} (h : n ∈ w.keys) : n ≠ [] ∧ ∀ c ∈ n, isBareKey c = true := by
  rcases mem_keys h with ⟨rfl, -⟩ | ⟨rfl, -⟩ | ⟨rfl, -⟩ | ⟨rfl, -⟩
  all_goals exact ⟨by decide, List.all_eq_true.1 rfl⟩

theorem exists_lines (hρ : 0 < ρ.parts) (h : ∀ n ∈ names, (n ≠ [] ∧ ∀ c ∈ n, isBareKey c = true) ∧ Sayable ρ w n) :
    ∃ s, ∃ es : Entries, Lines ρ s (es.map fun e => .pair [] e.1 e.2) ∧ (es.map fun e => e.1.name) = names ∧
      ∀ e ∈ es, Spells w e.1.name e.2 := by
  induction names with
  | nil => exact ⟨[], [], .done, rfl, by simp⟩
  | cons n names ih =>
    obtain ⟨s, es, hlines, hnames, hspells⟩ := ih fun m hm => h m (List.mem_cons_of_mem _ hm)
    obtain ⟨⟨hne, hbare⟩, t, ht⟩ := h n (List.mem_cons_self ..)
    obtain ⟨v, hv, hspell⟩ := ht ('\n' :: s)
    have hkey : KeyAt ρ.parts (n ++ '=' :: (t ++ '\n' :: s)) [] _ ('=' :: (t ++ '\n' :: s)) :=
      ⟨.last (.bare hne hbare) (.refl _), hρ⟩
    refine ⟨n ++ '=' :: (t ++ '\n' :: s), (⟨n, markOf (n ++ '=' :: (t ++ '\n' :: s))⟩, v) :: es, ?_, ?_, ?_⟩
    · exact .statement (.refl _) (.pair (.mk hkey (.refl _) hv (.refl _)))
        ⟨_, _, .refl _, Or.inl rfl, .line (.lineFeed _)⟩ hlines
    · rw [List.map_cons, hnames]
    · intro e he
      rcases List.mem_cons.1 he with rfl | he
      · exact hspell
      · exact hspells e he

/-- Whatever is wanted can be written down. -/
theorem exists_writes (hnesting : 0 < ρ.nesting) (hparts : 0 < ρ.parts) (w : Wanted) : ∃ text, Writes ρ text w := by
  obtain ⟨s, es, hlines, hnames, hspells⟩ :=
    exists_lines hparts fun n hn => ⟨bare_of_mem_keys hn, sayable_of_mem_keys hnesting hn⟩
  exact ⟨s, s, es, Or.inl rfl, hlines, hnames ▸ .refl _, hspells⟩

end IconMaker.Settings
