import IconMaker.Proofs.Deflate.Stream

/-
  IconMaker.Proofs.Deflate.Blocks — the reader sees every block that a writer may begin.

  For each reader of `IconMaker.Deflate.Block` one lemma: from a source that holds what the
  writer put there, with more to come or not, it finds what the writer meant. `finds_readBlock`
  puts them together for a whole part up to where its data begins.
-/

namespace IconMaker.Deflate

variable {s : Source} {more : Bytes} {after : List Bool}

/-! ## Lengths of the length code -/

theorem lowBits_append {m a : Nat} (n b : Nat) (ha : a < 2 ^ m) :
    lowBits m a ++ lowBits n b = lowBits (m + n) (a + 2 ^ m * b) := by
  induction m generalizing a with
  | zero =>
    obtain rfl : a = 0 := by omega
    simp [lowBits]
  | succ m ih =>
    have hdiv : (a + 2 ^ (m + 1) * b) / 2 = a / 2 + 2 ^ m * b := by
      rw [Nat.pow_succ', Nat.mul_assoc, Nat.add_mul_div_left _ _ Nat.two_pos]
    have hbit : (a + 2 ^ (m + 1) * b).testBit 0 = a.testBit 0 := by
      rw [Nat.pow_succ', Nat.mul_assoc, Nat.testBit_zero, Nat.testBit_zero, Nat.add_mul_mod_self_left]
    rw [Nat.add_right_comm, lowBits_succ, lowBits_succ, hdiv, hbit, List.cons_append, ih (by omega)]

theorem finds_readLengths3 {vs : List Nat} (hv : ∀ v ∈ vs, v < 8)
    (h : (s.feed more).Holds (vs.flatMap (lowBits 3) ++ after)) : Finds (readLengths3 vs.length s) more vs after := by
  induction vs generalizing s with
  | nil => exact finds_ok h
  | cons v vs ih =>
    rw [List.flatMap_cons, List.append_assoc] at h
    rw [List.length_cons, readLengths3]
    rcases finds_take? (hv v (List.mem_cons_self ..)) h with ⟨e, hm⟩ | ⟨t, e, ht⟩
    · rw [e]
      exact finds_exhausted hm
    rw [e]
    dsimp only
    rcases ih (fun w hw => hv w (List.mem_cons_of_mem _ hw)) ht with ⟨e, hm⟩ | ⟨u, e, hu⟩
    · rw [e]
      exact finds_exhausted hm
    · rw [e]
      exact finds_ok hu

/-- The lengths that are not sent are zero. -/
theorem lookup_zip_take (f : Nat → Nat) (sym : Nat) (order : List Nat) (k : Nat) :
    ((order.zip ((order.take k).map f)).lookup sym).getD 0 = if sym ∈ order.take k then f sym else 0 := by
  induction order generalizing k with
  | nil => simp
  | cons x order ih =>
    cases k with
    | zero => simp
    | succ k =>
      simp only [List.take_succ_cons, List.map_cons, List.zip_cons_cons, List.mem_cons]
      by_cases hx : sym = x
      · simp [hx]
      · rw [List.lookup_cons, beq_false_of_ne hx]
        simpa [hx] using ih k

theorem code_of_sent {rules : Rules} {p : Preface} (h : p.Legal rules) :
    ((List.range 19).map fun sym =>
      ((lengthOrder.zip ((lengthOrder.take p.sent).map p.code.lengthOf)).lookup sym).getD 0) = p.code := by
  have hcount : List.length p.code = 19 := h.code_count
  refine List.ext_getElem (by simp [hcount]) fun sym hs _ => ?_
  have hs : sym < 19 := by simpa using hs
  have hmem : ∀ k < 19, k ∈ lengthOrder := by decide
  have hmem := hmem sym hs
  rw [← List.take_append_drop p.sent lengthOrder, List.mem_append] at hmem
  have hget : p.code.lengthOf sym = p.code[sym] := by simp [Lengths.lengthOf, hcount, hs]
  rw [List.getElem_map, List.getElem_range, lookup_zip_take, ← hget]
  rcases hmem with hm | hm
  · rw [if_pos hm]
  · rw [h.unsent sym hm, ite_self]

/-! ## Lengths under the length code -/

theorem length_append (r : Run) (done : Lengths) (h : r.Fits done) :
    List.length done < List.length (r.append done) := by
  cases r <;> simp only [Run.append, List.length_append, List.length_replicate, List.length_singleton, Run.Fits] at h ⊢ <;>
    omega

theorem length_expandRuns {code : Lengths} {done : Lengths} {runs : List Run} (h : LegalRuns code done runs) :
    List.length done ≤ List.length (expandRuns runs done) := by
  induction runs generalizing done with
  | nil => exact Nat.le_refl _
  | cons r rs ih =>
    exact Nat.le_trans (Nat.le_of_lt (length_append r done h.1.2)) (ih h.2)

theorem finds_readCount {l extra first n : Nat} (hn : first ≤ n) (hlt : n - first < 2 ^ extra)
    (h : (s.feed more).Holds (lowBits extra (n - first) ++ after)) :
    Finds (readCount l extra first s) more (l, n) after := by
  unfold readCount
  rcases finds_take? hlt h with ⟨e, hm⟩ | ⟨t, e, ht⟩
  · rw [e]
    exact finds_exhausted hm
  · rw [e]
    dsimp only
    rw [Nat.add_sub_of_le hn]
    exact finds_ok ht

/-- A run is a length and how often it comes. -/
theorem finds_readRepeat {r : Run} {done : Lengths} (hr : r.Fits done)
    (h : (s.feed more).Holds (r.extra ++ after)) :
    ∃ l k, r.append done = done ++ List.replicate k l ∧ Finds (readRepeat done.getLast? r.symbol s) more (l, k) after := by
  cases r with
  | once l =>
    refine ⟨l, 1, rfl, ?_⟩
    rw [readRepeat.eq_def, if_pos (show (Run.once l).symbol < 16 from Nat.lt_succ_of_le hr)]
    exact finds_ok h
  | again n =>
    refine ⟨_, n, rfl, ?_⟩
    obtain ⟨hne, hlo, hhi⟩ := hr
    rw [readRepeat.eq_def, if_neg (show ¬(Run.again n).symbol < 16 from Nat.lt_irrefl 16), if_pos (show (Run.again n).symbol = 16 from rfl),
      List.getLast?_eq_some_getLast hne]
    exact finds_readCount hlo (by omega) h
  | zeros n =>
    refine ⟨0, n, rfl, ?_⟩
    exact finds_readCount hr.1 (by have := hr.2; omega) h
  | manyZeros n =>
    refine ⟨0, n, rfl, ?_⟩
    exact finds_readCount hr.1 (by have := hr.2; omega) h

/-- One step of `readLengths`, without what its termination needs. -/
theorem readLengths_step (code : Code) (n : Nat) (done : List Nat) (s : Source) :
    readLengths code n done s =
      if done.length ≥ n then .ok (done.reverse, s)
      else if !s.has lengthBits then .error .exhausted
      else
        match code.read s with
        | .error e => .error e
        | .ok (w, s') =>
          match readRepeat done.head? w.symbol s' with
          | .error e => .error e
          | .ok ((l, k), s'') =>
            if done.length + k ≤ n then readLengths code n (List.replicate k l ++ done) s'' else .error .invalid := by
  rw [readLengths]
  split
  · rfl
  split
  · rfl
  split
  · rename_i e
    rw [e]
  rename_i e
  rw [e]
  dsimp only
  split
  · rename_i e
    rw [e]
  rename_i e
  rw [e]

theorem finds_readLengths {code done : Lengths} {runs : List Run} (hc : code.Fits) (hr : LegalRuns code done runs)
    (hlong : lengthBits ≤ after.length) (h : (s.feed more).Holds (runs.flatMap (Run.bits code) ++ after)) :
    Finds (readLengths (Code.ofLengths code) (expandRuns runs done).length done.reverse s) more
      (expandRuns runs done) after := by
  induction runs generalizing done s with
  | nil =>
    rw [readLengths_step, if_pos (by rw [List.length_reverse]; exact Nat.le_refl _), List.reverse_reverse]
    exact finds_ok h
  | cons r rs ih =>
    obtain ⟨⟨hsym, hfit⟩, hrest⟩ := hr
    have hlt := length_append r done hfit
    have hle : List.length (r.append done) ≤ (expandRuns (r :: rs) done).length := length_expandRuns hrest
    rw [readLengths_step, if_neg (by rw [List.length_reverse]; omega)]
    rcases has_or_more h (n := lengthBits) (by rw [List.length_append]; omega) with hhas | ⟨hhas, hm⟩
    case inr =>
      rw [hhas]
      exact finds_exhausted hm
    rw [hhas, if_neg (by decide)]
    rw [List.flatMap_cons, Run.bits, List.append_assoc, List.append_assoc] at h
    rcases Code.finds_read hc hsym h with ⟨e, hm⟩ | ⟨t, e, ht⟩
    · rw [e]
      exact finds_exhausted hm
    rw [e]
    dsimp only
    obtain ⟨l, k, happ, hfind⟩ := finds_readRepeat hfit ht
    rw [← List.head?_reverse] at hfind
    rcases hfind with ⟨e, hm⟩ | ⟨u, e, hu⟩
    · rw [e]
      exact finds_exhausted hm
    rw [e]
    dsimp only
    have hk : List.replicate k l ++ done.reverse = (r.append done).reverse := by
      rw [happ, List.reverse_append, List.reverse_replicate]
    rw [happ, List.length_append, List.length_replicate] at hle
    rw [if_pos (by rw [List.length_reverse]; exact hle), hk]
    exact ih hrest hu

/-! ## The preface of a block -/

theorem Preface.Legal.literals_fit {p : Preface} (h : p.Legal .reader) : p.literals.Fits := by
  rcases h.literals with h | ⟨h, _⟩
  · exact h.fits
  · cases h

theorem Preface.Legal.distances_fit {rules : Rules} {p : Preface} (h : p.Legal rules) : p.distances.Fits := by
  rcases h.distances with h | h | h
  · exact h.fits
  · exact Lengths.fits_of_present h (by decide) (by decide)
  · exact Lengths.fits_of_present h (by decide) (by decide)

theorem codesOf_preface {p : Preface} (h : p.Legal .reader) :
    codesOf p.literals.length (p.literals ++ p.distances)
      = some (.coded (.ofLengths p.literals) (.ofLengths p.distances)) := by
  have hend : (p.literals ++ p.distances).getD 256 0 ≠ 0 := by
    rw [List.getD_eq_getElem?_getD, List.getElem?_append_left (Nat.lt_of_lt_of_le (by decide) h.literal_count.1),
      ← List.getD_eq_getElem?_getD]
    exact h.endOfBlock
  have hliterals : (Code.ofLengths p.literals).isComplete = true := by
    rcases h.literals with h | ⟨h, _⟩
    · exact Code.isComplete_ofLengths h
    · cases h
  have hdistances : (Code.ofLengths p.distances).isComplete = true ∨ (Code.ofLengths p.distances).isSingle = true ∨
      Code.ofLengths p.distances = [] := by
    rcases h.distances with h | h | h
    · exact Or.inl (Code.isComplete_ofLengths h)
    · exact Or.inr (Or.inl (Code.isSingle_ofLengths h))
    · exact Or.inr (Or.inr (Code.ofLengths_eq_nil h))
  unfold codesOf
  rw [List.take_left, List.drop_left]
  exact if_pos ⟨hend, hliterals, hdistances⟩

/-- What stands behind the three numbers of a preface. -/
def Preface.lengthBits (p : Preface) : List Bool :=
  ((lengthOrder.take p.sent).map p.code.lengthOf).flatMap (lowBits 3) ++ p.runs.flatMap (Run.bits p.code)

/-- The three numbers at the start of a preface. -/
theorem finds_counts {rules : Rules} {p : Preface} (hp : p.Legal rules) (hd : p.distances.length ≤ 32)
    (h : (s.feed more).Holds (p.bits ++ after)) :
    (s.take? 14 = none ∧ more ≠ []) ∨
      ∃ v t, s.take? 14 = some (v, t) ∧ v % 32 + 257 = p.literals.length ∧ v / 32 % 32 + 1 = p.distances.length ∧
        v / 1024 + 4 = p.sent ∧ (t.feed more).Holds (p.lengthBits ++ after) := by
  obtain ⟨hl, hl'⟩ := hp.literal_count
  obtain ⟨a, ha⟩ := Nat.exists_eq_add_of_le' hl
  obtain ⟨b, hb⟩ := Nat.exists_eq_add_of_le' hp.distance_count.1
  obtain ⟨hs, hs'⟩ := hp.sent
  obtain ⟨c, hc⟩ := Nat.exists_eq_add_of_le' hs
  have hbits : p.bits = lowBits 14 (a + 2 ^ 5 * b + 2 ^ (5 + 5) * c) ++ p.lengthBits := by
    rw [Preface.bits, Preface.lengthBits, List.flatMap_map, ha, hb, hc, Nat.add_sub_cancel, Nat.add_sub_cancel,
      Nat.add_sub_cancel, lowBits_append _ _ (show a < 2 ^ 5 by omega),
      lowBits_append _ _ (show a + 2 ^ 5 * b < 2 ^ (5 + 5) by omega), List.append_assoc]
  rw [hbits, List.append_assoc] at h
  refine (finds_take? (by omega) h).imp id fun ⟨t, e, ht⟩ => ⟨_, t, e, ?_, ?_, ?_, ht⟩ <;> omega

theorem finds_readCodeLengths {rules : Rules} {p : Preface} (hp : p.Legal rules) (hd : p.distances.length ≤ 30)
    (hlong : lengthBits ≤ after.length) (h : (s.feed more).Holds (p.bits ++ after)) :
    Finds (readCodeLengths s) more (p.literals.length, p.literals ++ p.distances) after := by
  unfold readCodeLengths
  rcases finds_counts hp (Nat.le_trans hd (by decide)) h with ⟨e, hm⟩ | ⟨v, t, e, hv, hv', hv'', ht⟩
  · rw [e]
    exact finds_exhausted hm
  rw [e]
  dsimp only
  have hcount : v % 32 + 257 + (v / 32 % 32 + 1) = (expandRuns p.runs []).length := by
    rw [hp.runs_eq, List.length_append, hv, hv']
  have hlen : v / 1024 + 4 = ((lengthOrder.take p.sent).map p.code.lengthOf).length := by
    have hs := hp.sent.2
    have : lengthOrder.length = 19 := rfl
    rw [hv'', List.length_map, List.length_take, this]
    omega
  have hvs : ∀ v ∈ (lengthOrder.take p.sent).map p.code.lengthOf, v < 8 := by
    intro v hv
    obtain ⟨sym, _, rfl⟩ := List.mem_map.1 hv
    exact Nat.lt_succ_of_le (Lengths.lengthOf_le hp.code_le sym)
  have hl := hp.literal_count.2
  rw [if_neg (by omega), hcount, hv, hlen]
  rw [Preface.lengthBits, List.append_assoc] at ht
  rcases finds_readLengths3 hvs ht with ⟨e, hm⟩ | ⟨u, e, hu⟩
  · rw [e]
    exact finds_exhausted hm
  rw [e]
  dsimp only
  rw [code_of_sent hp, if_pos (Code.isComplete_ofLengths hp.code_complete)]
  rcases finds_readLengths hp.code_complete.fits hp.runs hlong hu with ⟨e, hm⟩ | ⟨w, e, hw⟩
  · rw [List.reverse_nil] at e
    rw [e]
    exact finds_exhausted hm
  · rw [List.reverse_nil] at e
    rw [e, hp.runs_eq]
    exact finds_ok hw

/-! ## Blocks -/

namespace Part

def block : Part → Block
  | stored _ data => .stored data.length
  | fixed _ => .coded fixedLiterals fixedDistances
  | dynamic p _ => .coded (.ofLengths p.literals) (.ofLengths p.distances)

/-- The bits behind those that `readBlock` reads. -/
def dataBits : Part → List Bool
  | stored _ data => data.flatMap bitsOf
  | fixed items => itemBits fixedLiteralLengths fixedDistanceLengths items
  | dynamic p items => itemBits p.literals p.distances items

end Part

/-- The bytes of a stored block begin where its padding ends. -/
theorem finds_readStored {padding : List Bool} {data : Bytes} (hn : data.length ≤ 65535) (hp : padding.length < 8)
    (ha : after.length % 8 = 0)
    (h : (s.feed more).Holds (padding ++ (Bytes.le 2 data.length ++ Bytes.le 2 (65535 - data.length) ++ data).flatMap bitsOf
      ++ after)) : Finds (readStored s) more (.stored data.length) (data.flatMap bitsOf ++ after) := by
  obtain ⟨begun, rest⟩ := s
  obtain ⟨hlt, hbits⟩ := h
  simp only [Source.feed, Source.bits] at hlt hbits
  have hlen := congrArg List.length hbits
  simp only [List.length_append, length_flatMap_bitsOf] at hlen
  rw [List.append_assoc] at hbits
  obtain ⟨-, hbytes⟩ := List.append_inj hbits (by omega)
  have hsplit : (Bytes.le 2 data.length ++ Bytes.le 2 (65535 - data.length) ++ data).flatMap bitsOf
      = (Bytes.le 2 data.length ++ Bytes.le 2 (65535 - data.length)).flatMap bitsOf ++ data.flatMap bitsOf :=
    List.flatMap_append
  rw [hsplit, List.append_assoc] at hbytes
  obtain ⟨htake, hdrop⟩ := take_of_flatMap_bitsOf hbytes
  rw [List.length_append, Bytes.length_le, Bytes.length_le] at htake hdrop
  unfold readStored
  rcases rest with _ | ⟨a, _ | ⟨b, _ | ⟨c, _ | ⟨d, r⟩⟩⟩⟩
  case cons.cons.cons.cons =>
    simp only [List.cons_append, List.take_succ_cons, List.take_zero, List.drop_succ_cons, List.drop_zero] at htake hdrop
    have hfirst := congrArg Bytes.ofLE (congrArg (List.take 2) htake)
    have hsecond := congrArg Bytes.ofLE (congrArg (List.drop 2) htake)
    rw [List.take_left' (Bytes.length_le 2 _), Bytes.ofLE_le, Nat.mod_eq_of_lt (by omega)] at hfirst
    rw [List.drop_left' (Bytes.length_le 2 _), Bytes.ofLE_le, Nat.mod_eq_of_lt (by omega)] at hsecond
    simp only [List.take_succ_cons, List.take_zero, List.drop_succ_cons, List.drop_zero, Bytes.ofLE] at hfirst hsecond
    dsimp only
    rw [if_pos (by omega), show a.toNat + 256 * b.toNat = data.length by omega]
    exact finds_ok ⟨Nat.zero_lt_succ 7, by simpa [Source.feed, Source.bits] using hdrop⟩
  all_goals
    refine finds_exhausted fun hm => ?_
    subst hm
    simp [Bytes.le] at htake

theorem fixedLiterals_eq : fixedLiterals = .ofLengths fixedLiteralLengths :=
  congrArg Code.ofLengths (by decide +kernel)

theorem fixedDistances_eq : fixedDistances = .ofLengths fixedDistanceLengths :=
  congrArg Code.ofLengths (by decide +kernel)

/-- The three bits at the start of a block: whether it is the last, and its kind. -/
theorem readBlock_kind {final x y : Bool} {rest : List Bool} (hlong : 7 ≤ rest.length)
    (h : (s.feed more).Holds (final :: x :: y :: rest)) :
    (readBlock s = .error .exhausted ∧ more ≠ []) ∨
      ∃ t, (t.feed more).Holds rest ∧
        readBlock s = match readKind (x.toNat + 2 * y.toNat) t with
          | .error e => .error e
          | .ok (b, u) => .ok ((final, b), u) := by
  unfold readBlock
  rcases has_or_more h (n := blockBits) (by simp only [List.length_cons, blockBits]; omega) with hhas | ⟨hhas, hm⟩
  case inr =>
    rw [hhas]
    exact Or.inl ⟨rfl, hm⟩
  have hlow : [final, x, y] = lowBits 3 (final.toNat + 2 * (x.toNat + 2 * y.toNat)) := by
    cases final <;> cases x <;> cases y <;> rfl
  have hv : final.toNat + 2 * (x.toNat + 2 * y.toNat) < 2 ^ 3 := by
    cases final <;> cases x <;> cases y <;> decide
  have hdiv : (final.toNat + 2 * (x.toNat + 2 * y.toNat)) / 2 = x.toNat + 2 * y.toNat := by
    cases final <;> cases x <;> cases y <;> rfl
  have hmod : ((final.toNat + 2 * (x.toNat + 2 * y.toNat)) % 2 == 1) = final := by
    cases final <;> cases x <;> cases y <;> rfl
  rw [show final :: x :: y :: rest = [final, x, y] ++ rest from rfl, hlow] at h
  rw [hhas, if_neg (by decide)]
  rcases finds_take? hv h with ⟨e, hm⟩ | ⟨t, e, ht⟩
  · rw [e]
    exact Or.inl ⟨rfl, hm⟩
  · refine Or.inr ⟨t, ht, ?_⟩
    rw [e]
    cases hk : readKind (x.toNat + 2 * y.toNat) t <;> simp only [hdiv, hmod, hk]

section

variable {t u : Source} {n : Nat} {all : List Nat}

theorem readKind_unread {e : Halt} (h : readCodeLengths t = .error e) : readKind 2 t = .error e := by
  unfold readKind
  rw [if_neg (by decide), if_neg (by decide), if_pos rfl, h]

theorem readKind_wrong (h : readCodeLengths t = .ok ((n, all), u)) (hc : codesOf n all = none) :
    readKind 2 t = .error .invalid := by
  unfold readKind
  rw [if_neg (by decide), if_neg (by decide), if_pos rfl, h]
  dsimp only
  rw [hc]

theorem readKind_coded {b : Block} (h : readCodeLengths t = .ok ((n, all), u)) (hc : codesOf n all = some b) :
    readKind 2 t = .ok (b, u) := by
  unfold readKind
  rw [if_neg (by decide), if_neg (by decide), if_pos rfl, h]
  dsimp only
  rw [hc]

end

theorem finds_readKind {p : Part} {position : Nat} {out : Bytes} {final : Bool} (hp : p.Legal .reader position out)
    (hpos : (position + (p.bits final ++ after).length) % 8 = 0) (hlong : 32 ≤ after.length) :
    ∃ x y rest, p.bits final = final :: x :: y :: rest ∧
      ∀ t : Source, (t.feed more).Holds (rest ++ after) →
        Finds (readKind (x.toNat + 2 * y.toNat) t) more p.block (p.dataBits ++ after) := by
  cases p with
  | stored padding data =>
    obtain ⟨hn, hpad, hend⟩ := hp
    refine ⟨_, _, _, rfl, fun t ht => finds_readStored hn hpad ?_ ht⟩
    simp only [Part.bits, List.length_append, List.length_cons, length_flatMap_bitsOf] at hpos
    omega
  | fixed items => exact ⟨_, _, _, rfl, fun t ht => finds_ok ht⟩
  | dynamic p items =>
    refine ⟨_, _, _, rfl, fun t ht => ?_⟩
    rw [List.append_assoc] at ht
    show Finds (readKind 2 t) more _ _
    have hlong : lengthBits ≤ (itemBits p.literals p.distances items ++ after).length := by
      rw [List.length_append, lengthBits]
      omega
    rcases finds_readCodeLengths hp.1 hp.1.distance_count.2 hlong ht with ⟨e, hm⟩ | ⟨u, e, hu⟩
    · rw [readKind_unread e]
      exact finds_exhausted hm
    · rw [readKind_coded e (codesOf_preface hp.1)]
      exact finds_ok hu

/-- `position` is that of the block in a stream of whole bytes. -/
theorem finds_readBlock {p : Part} {final : Bool} {position : Nat} {out : Bytes} (hp : p.Legal .reader position out)
    (hpos : (position + (p.bits final ++ after).length) % 8 = 0) (hlong : 32 ≤ after.length)
    (h : (s.feed more).Holds (p.bits final ++ after)) :
    Finds (readBlock s) more (final, p.block) (p.dataBits ++ after) := by
  obtain ⟨x, y, rest, hbits, hkind⟩ := finds_readKind hp hpos hlong
  rw [hbits, List.cons_append, List.cons_append, List.cons_append] at h
  rcases readBlock_kind (by rw [List.length_append]; omega) h with h | ⟨t, ht, e⟩
  · exact Or.inl h
  rw [e]
  rcases hkind t ht with ⟨e, hm⟩ | ⟨u, e, hu⟩
  · rw [e]
    exact finds_exhausted hm
  · rw [e]
    exact finds_ok hu

/-! ## What is refused -/

/-- A preface that the format allows and the reader does not. -/
theorem preface_cases {p : Preface} (hp : p.Legal .format) (hno : ¬p.Legal .reader) :
    30 < p.distances.length ∨ p.literals.present = [1] := by
  by_cases hd : p.distances.length ≤ 30
  · rcases hp.literals with hl | ⟨_, hl⟩
    · exact absurd { hp with distance_count := ⟨hp.distance_count.1, hd⟩, literals := Or.inl hl } hno
    · exact Or.inr hl
  · exact Or.inl (Nat.not_le.1 hd)

/-- A block with such a preface ends the reading. -/
theorem readBlock_refuses {p : Preface} {items : List Item} {final : Bool} (hp : p.Legal .format)
    (hno : ¬p.Legal .reader) (hlong : 32 ≤ after.length)
    (h : s.Holds ((Part.dynamic p items).bits final ++ after)) : readBlock s = .error .invalid := by
  have hkind : ∀ t : Source, (t.feed []).Holds (p.bits ++ (itemBits p.literals p.distances items ++ after)) →
      readKind 2 t = .error .invalid := by
    intro t ht
    by_cases hd : p.distances.length ≤ 30
    · rcases preface_cases hp hno with h | hl
      · omega
      have hlong : lengthBits ≤ (itemBits p.literals p.distances items ++ after).length := by
        rw [List.length_append, lengthBits]
        omega
      rcases finds_readCodeLengths hp hd hlong ht with ⟨_, hm⟩ | ⟨u, e, _⟩
      · exact absurd rfl hm
      have hnone : codesOf p.literals.length (p.literals ++ p.distances) = none := by
        unfold codesOf
        rw [List.take_left]
        exact if_neg fun h => absurd h.2.1 (by simp [Code.isComplete_of_single hl])
      exact readKind_wrong e hnone
    · have hread : readCodeLengths t = .error .invalid := by
        unfold readCodeLengths
        rcases finds_counts hp hp.distance_count.2 ht with ⟨_, hm⟩ | ⟨v, u, e, _, hv, _⟩
        · exact absurd rfl hm
        rw [e]
        exact if_pos (Or.inr (by omega))
      exact readKind_unread hread
  have h : (s.feed []).Holds
      (final :: false :: true :: (p.bits ++ (itemBits p.literals p.distances items ++ after))) := by
    rw [Source.feed_nil]
    rw [Part.bits, List.cons_append, List.cons_append, List.cons_append, List.append_assoc] at h
    exact h
  rcases readBlock_kind (by rw [List.length_append, List.length_append]; omega) h with ⟨_, hm⟩ | ⟨t, ht, e⟩
  · exact absurd rfl hm
  rw [e, show false.toNat + 2 * true.toNat = 2 from rfl, hkind t ht]

end IconMaker.Deflate
