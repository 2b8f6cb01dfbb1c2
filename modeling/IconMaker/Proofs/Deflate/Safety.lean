import IconMaker.Proofs.Bytes
import IconMaker.Zlib

/-
  IconMaker.Proofs.Deflate.Safety — the expansion of any bytes whatsoever.

  Nothing is assumed of the stream. Each relation below has a rule for every way in which its
  reader can go on or stop, and every rule that takes something from a buffer or a table says that
  it is there: a copied byte lies in the output that is written already (`Copies`), what is stored
  has come (`Inflates.stored`), a code comes from as many lengths as the format has symbols
  (`Block.Usable`). There is no rule for anything else. So the theorem that a reader always runs
  by the rules (`tokens_readTokens`, `inflates_advance`, `unpacks_expand`) says that it never
  leaves its buffers, be the stream right or wrong. By the same rules the output ends less than a
  whole copy behind the limit (`Unpacks.size_le`).
-/

namespace IconMaker.Deflate

/-! ## Copies -/

/-- `n` bytes are copied from `distance` back, each of them from within the output so far. -/
inductive Copies (distance : Nat) : Nat → Array UInt8 → Array UInt8 → Prop
  | done {out : Array UInt8} : Copies distance 0 out out
  | next {n : Nat} {out out' : Array UInt8} {b : UInt8} : 1 ≤ distance → distance ≤ out.size →
      out[out.size - distance]? = some b → Copies distance n (out.push b) out' → Copies distance (n + 1) out out'

theorem copies_copy {distance : Nat} {out : Array UInt8} (n : Nat) (hpos : 1 ≤ distance) (hle : distance ≤ out.size) :
    Copies distance n out (copy distance n out) := by
  induction n generalizing out with
  | zero => exact .done
  | succ n ih =>
    have hlt : out.size - distance < out.size := by omega
    refine .next hpos hle (getElem?_eq_some_getD hlt 0) (ih ?_)
    rw [Array.size_push]
    omega

theorem Copies.size_eq {distance n : Nat} {out out' : Array UInt8} (h : Copies distance n out out') :
    out'.size = out.size + n := by
  induction h with
  | done => rfl
  | next _ _ _ _ ih => rw [ih, Array.size_push]; omega

/-! ## Tokens -/

/-- The longest copy. -/
def maxCopy : Nat := 258

/-- The farthest copy. -/
def maxDistance : Nat := 32768

theorem Source.take?_lt {n v : Nat} {s t : Source} (h : s.take? n = some (v, t)) : v < 2 ^ n := by
  induction n generalizing s v with
  | zero => cases h; decide
  | succ n ih =>
    unfold Source.take? at h
    split at h
    · cases h
    · rename_i b s' hnext
      split at h
      · cases h
      · rename_i v' s'' htake
        cases h
        have hv := ih htake
        have hb := b.toNat_lt
        omega

/-- A value of one of the ranges lies between the ends of all. -/
theorem readRange_bounds {ranges : Array Range} {low high i n : Nat} {s t : Source}
    (hr : ∀ r ∈ ranges.toList, low ≤ r.first ∧ r.first + 2 ^ r.extra ≤ high + 1)
    (h : readRange ranges i s = .ok (n, t)) : low ≤ n ∧ n ≤ high := by
  unfold readRange at h
  split at h
  · cases h
  · rename_i r hget
    split at h
    · cases h
    · rename_i v t' htake
      cases h
      obtain ⟨hlow, hhigh⟩ := hr r (Array.mem_toList_iff.2 (Array.mem_of_getElem? hget))
      have hv := Source.take?_lt htake
      omega

theorem readCopy_bounds {distances : Code} {symbol length distance : Nat} {s t : Source}
    (h : readCopy distances symbol s = .ok (.copy length distance, t)) :
    (3 ≤ length ∧ length ≤ maxCopy) ∧ 1 ≤ distance ∧ distance ≤ maxDistance := by
  unfold readCopy at h
  split at h
  · cases h
  · rename_i hlength
    split at h
    · cases h
    · split at h
      · cases h
      · rename_i hdistance
        cases h
        exact ⟨readRange_bounds (by decide) hlength, readRange_bounds (by decide) hdistance⟩

theorem readToken_bounds {literals distances : Code} {length distance : Nat} {s t : Source}
    (h : readToken literals distances s = .ok (.copy length distance, t)) :
    (3 ≤ length ∧ length ≤ maxCopy) ∧ 1 ≤ distance ∧ distance ≤ maxDistance := by
  unfold readToken at h
  split at h
  · cases h
  · split at h
    · unfold readPartner at h
      repeat' split at h
      all_goals cases h
    · split at h
      · cases h
      · exact readCopy_bounds h

/-- Reading the data of a coded block: from an output and what is left of the stream to the output
    in the end and how it came to a stop. -/
inductive Tokens (limit : Nat) (literals distances : Code) : Array UInt8 → Source → Array UInt8 → Stop → Prop
  | starved {out : Array UInt8} {s : Source} : out.size < limit → readToken literals distances s = .error .exhausted →
      Tokens limit literals distances out s out (.paused s)
  | refused {out : Array UInt8} {s : Source} : out.size < limit → readToken literals distances s = .error .invalid →
      Tokens limit literals distances out s out .wrong
  | literal {out out' : Array UInt8} {s t : Source} {b : UInt8} {stop : Stop} : out.size < limit →
      readToken literals distances s = .ok (.literal b, t) →
      Tokens limit literals distances (out.push b) t out' stop → Tokens limit literals distances out s out' stop
  | pair {out out' : Array UInt8} {s t : Source} {b c : UInt8} {stop : Stop} : out.size < limit →
      readToken literals distances s = .ok (.pair b c, t) →
      Tokens limit literals distances ((out.push b).push c) t out' stop → Tokens limit literals distances out s out' stop
  | copied {out copied out' : Array UInt8} {s t : Source} {length distance : Nat} {stop : Stop} : out.size < limit →
      readToken literals distances s = .ok (.copy length distance, t) → 3 ≤ length → length ≤ maxCopy →
      distance ≤ maxDistance → Copies distance length out copied →
      Tokens limit literals distances copied t out' stop → Tokens limit literals distances out s out' stop
  /-- The copy would begin before the output does. -/
  | tooFar {out : Array UInt8} {s t : Source} {length distance : Nat} : out.size < limit →
      readToken literals distances s = .ok (.copy length distance, t) → out.size < distance →
      Tokens limit literals distances out s out .wrong
  | ended {out : Array UInt8} {s t : Source} : out.size < limit → readToken literals distances s = .ok (.endOfBlock, t) →
      Tokens limit literals distances out s out (.ended t)
  | atLimit {out : Array UInt8} {s : Source} : out.size = limit →
      Tokens limit literals distances out s out (stopAtLimit literals s)
  | beyond {out : Array UInt8} {s : Source} : limit < out.size → Tokens limit literals distances out s out (.paused s)

theorem tokens_readTokens (limit : Nat) (literals distances : Code) (out : Array UInt8) (s : Source) :
    Tokens limit literals distances out s (readTokens limit literals distances out s).1
      (readTokens limit literals distances out s).2 := by
  fun_induction readTokens limit literals distances out s with
  | case1 out s hlt hr => exact .starved hlt hr
  | case2 out s hlt hr => exact .refused hlt hr
  | case3 out s hlt b t hr ih => exact .literal hlt hr ih
  | case4 out s hlt b c t hr ih => exact .pair hlt hr ih
  | case5 out s hlt length distance t hr hle ih =>
    obtain ⟨⟨hshort, hlong⟩, hpos, hfar⟩ := readToken_bounds hr
    exact .copied hlt hr hshort hlong hfar (copies_copy length hpos hle) ih
  | case6 out s hlt length distance t hr hgt => exact .tooFar hlt hr (Nat.lt_of_not_le hgt)
  | case7 out s hlt t hr => exact .ended hlt hr
  | case8 out s hlt hsize => exact .atLimit hsize
  | case9 out s hlt hne => exact .beyond (by omega)

theorem Tokens.size_le {limit : Nat} {literals distances : Code} {out out' : Array UInt8} {s : Source} {stop : Stop}
    (h : Tokens limit literals distances out s out' stop) (hout : out.size < limit + maxCopy) :
    out'.size < limit + maxCopy := by
  induction h with
  | starved | refused | tooFar | ended | atLimit | beyond => exact hout
  | literal hlt _ _ ih | pair hlt _ _ ih =>
    refine ih ?_
    simp only [Array.size_push, maxCopy]
    omega
  | copied hlt _ _ hlong _ hcopies _ ih =>
    refine ih ?_
    rw [hcopies.size_eq]
    omega

/-! ## Blocks -/

/-- A block whose data can be read: it has a length that two bytes can state, the fixed codes, or
    codes of as many symbols as the format has, in which everything that can be read has a
    meaning. -/
inductive Block.Usable : Block → Prop
  | stored {n : Nat} : n < 65536 → Usable (.stored n)
  | fixed : Usable (.coded fixedLiterals fixedDistances)
  | coded {literals distances : List Nat} (h : 256 < literals.length) : literals.length ≤ 286 → distances.length ≤ 30 →
      literals[256] ≠ 0 → (Code.ofLengths literals).isComplete = true →
      ((Code.ofLengths distances).isComplete = true ∨ (Code.ofLengths distances).isSingle = true ∨
        Code.ofLengths distances = []) →
      Usable (.coded (Code.ofLengths literals) (Code.ofLengths distances))

/-- As many code lengths come as were asked for, whatever is repeated. -/
theorem length_readLengths {code : Code} {n : Nat} {done ls : List Nat} {s t : Source}
    (h : readLengths code n done s = .ok (ls, t)) (hdone : done.length ≤ n) : ls.length = n := by
  fun_induction readLengths code n done s with
  | case1 done s hle =>
    cases h
    rw [List.length_reverse]
    omega
  | case5 done s _ _ w s' _ l k s'' _ hle ih =>
    refine ih h ?_
    rw [List.length_append, List.length_replicate]
    omega
  | _ => cases h

theorem readCodeLengths_bounds {n : Nat} {all : List Nat} {s t : Source} (h : readCodeLengths s = .ok ((n, all), t)) :
    256 < n ∧ n ≤ 286 ∧ n ≤ all.length ∧ all.length ≤ n + 30 := by
  unfold readCodeLengths at h
  split at h
  · cases h
  · rename_i v s₁ _
    dsimp only at h
    split at h
    · cases h
    · rename_i hcounts
      split at h
      · cases h
      · split at h
        · split at h
          · cases h
          · rename_i hlengths
            cases h
            have hlength := length_readLengths hlengths (Nat.zero_le _)
            omega
        · cases h

theorem usable_codesOf {n : Nat} {all : List Nat} {b : Block} (hlow : 256 < n) (hhigh : n ≤ 286) (hle : n ≤ all.length)
    (hall : all.length ≤ n + 30) (h : codesOf n all = some b) : b.Usable := by
  unfold codesOf at h
  dsimp only at h
  split at h
  · rename_i hcodes
    cases h
    obtain ⟨hend, hliterals, hdistances⟩ := hcodes
    have hlength : (all.take n).length = n := by rw [List.length_take]; omega
    refine .coded (by omega) (by omega) (by rw [List.length_drop]; omega) ?_ hliterals hdistances
    rw [List.getElem_take]
    rwa [List.getD_eq_getElem?_getD, List.getElem?_eq_getElem (by omega), Option.getD_some] at hend
  · cases h

theorem usable_readStored {b : Block} {s t : Source} (h : readStored s = .ok (b, t)) : b.Usable := by
  unfold readStored at h
  split at h
  · rename_i b₀ b₁ _ _ _ _
    dsimp only at h
    split at h
    · cases h
      have hlow := b₀.toNat_lt
      have hhigh := b₁.toNat_lt
      exact .stored (by omega)
    · cases h
  · cases h

theorem usable_readKind {kind : Nat} {b : Block} {s t : Source} (h : readKind kind s = .ok (b, t)) : b.Usable := by
  unfold readKind at h
  split at h
  · exact usable_readStored h
  · split at h
    · cases h
      exact .fixed
    · split at h
      · split at h
        · cases h
        · rename_i hlengths
          obtain ⟨hlow, hhigh, hle, hall⟩ := readCodeLengths_bounds hlengths
          split at h
          · cases h
          · rename_i hcodes
            cases h
            exact usable_codesOf hlow hhigh hle hall hcodes
      · cases h

theorem usable_readBlock {final : Bool} {b : Block} {s t : Source} (h : readBlock s = .ok ((final, b), t)) : b.Usable := by
  unfold readBlock at h
  split at h
  · cases h
  · split at h
    · cases h
    · split at h
      · cases h
      · rename_i hkind
        cases h
        exact usable_readKind hkind

/-! ## Streams -/

/-- Going on from a phase, what is left of the stream and an output, as far as possible; nothing
    comes of it if the stream is wrong. -/
inductive Inflates (limit : Nat) : Phase → Source → Array UInt8 → Option Inflater → Prop
  | ended {s : Source} {out : Array UInt8} : Inflates limit .ended s out (some ⟨.ended, s, out⟩)
  | starved {s : Source} {out : Array UInt8} : readBlock s = .error .exhausted →
      Inflates limit .block s out (some ⟨.block, s, out⟩)
  | refused {s : Source} {out : Array UInt8} : readBlock s = .error .invalid → Inflates limit .block s out none
  | opened {s t : Source} {out : Array UInt8} {final : Bool} {b : Block} {r : Option Inflater} :
      readBlock s = .ok ((final, b), t) → b.Usable → Inflates limit (.ofBlock final b) t out r →
      Inflates limit .block s out r
  /-- All that is left of a stored block has come and has room. -/
  | stored {s : Source} {out : Array UInt8} {final : Bool} {left : Nat} {r : Option Inflater} :
      left ≤ s.rest.length → left ≤ limit - out.size →
      Inflates limit (.afterBlock final) ⟨[], s.rest.drop left⟩ (out ++ (s.rest.take left).toArray) r →
      Inflates limit (.stored final left) s out r
  /-- `k` bytes of it have. -/
  | storedPart {s : Source} {out : Array UInt8} {final : Bool} {left k : Nat} :
      k < left → k ≤ s.rest.length → k ≤ limit - out.size →
      Inflates limit (.stored final left) s out
        (some ⟨.stored final (left - k), ⟨[], s.rest.drop k⟩, out ++ (s.rest.take k).toArray⟩)
  | wrong {s : Source} {out out' : Array UInt8} {final : Bool} {literals distances : Code} :
      Tokens limit literals distances out s out' .wrong → Inflates limit (.coded final literals distances) s out none
  | paused {s t : Source} {out out' : Array UInt8} {final : Bool} {literals distances : Code} :
      Tokens limit literals distances out s out' (.paused t) →
      Inflates limit (.coded final literals distances) s out (some ⟨.coded final literals distances, t, out'⟩)
  | decoded {s t : Source} {out out' : Array UInt8} {final : Bool} {literals distances : Code} {r : Option Inflater} :
      Tokens limit literals distances out s out' (.ended t) → Inflates limit (.afterBlock final) t out' r →
      Inflates limit (.coded final literals distances) s out r

/-- What is taken of a stored block is there, belongs to it and has room. -/
theorem exists_taken (rest : Bytes) (left room : Nat) : ∃ k, rest.take (min left room) = rest.take k ∧
    (rest.take (min left room)).length = k ∧ k ≤ left ∧ k ≤ rest.length ∧ k ≤ room := by
  refine ⟨min (min left room) rest.length, List.take_eq_take_min .., List.length_take, ?_, ?_, ?_⟩ <;> omega

theorem inflates_advance (limit : Nat) (phase : Phase) (s : Source) (out : Array UInt8) :
    Inflates limit phase s out (Inflater.advance limit phase s out) := by
  fun_induction Inflater.advance limit phase s out with
  | case1 s out => exact .ended
  | case2 s out hr => exact .starved hr
  | case3 s out hr => exact .refused hr
  | case4 s out final b t hr ih => exact .opened hr (usable_readBlock hr) ih
  | case5 s out final left data t hlength ih =>
    obtain ⟨k, hdata, hk, -, hrest, hroom⟩ := exists_taken s.rest left (limit - out.size)
    have hleft : k = left := hk.symm.trans hlength
    subst hleft
    have ht : t = ⟨[], s.rest.drop k⟩ := congrArg (fun n => Source.mk [] (s.rest.drop n)) hlength
    refine .stored hrest hroom ?_
    rw [← hdata, ← ht]
    exact ih
  | case6 s out final left data t hlength =>
    obtain ⟨k, hdata, hk, hleft, hrest, hroom⟩ := exists_taken s.rest left (limit - out.size)
    have hlt : k < left := Nat.lt_of_le_of_ne hleft fun e => hlength (hk.trans e)
    have hpart : Inflates limit (.stored final left) s out
        (some ⟨.stored final (left - k), ⟨[], s.rest.drop k⟩, out ++ (s.rest.take k).toArray⟩) :=
      .storedPart hlt hrest hroom
    rwa [← hdata, ← hk] at hpart
  | case7 s out final literals distances out' hr =>
    have htokens := tokens_readTokens limit literals distances out s
    rw [hr] at htokens
    exact .wrong htokens
  | case8 s out final literals distances out' t hr =>
    have htokens := tokens_readTokens limit literals distances out s
    rw [hr] at htokens
    exact .paused htokens
  | case9 s out final literals distances out' t hr ih =>
    have htokens := tokens_readTokens limit literals distances out s
    rw [hr] at htokens
    exact .decoded htokens ih

theorem size_take_le {bs : Bytes} {out : Array UInt8} {limit k : Nat} (hroom : k ≤ limit - out.size)
    (hout : out.size < limit + maxCopy) : (out ++ (bs.take k).toArray).size < limit + maxCopy := by
  simp only [Array.size_append, List.size_toArray, List.length_take, maxCopy] at hout ⊢
  omega

theorem Inflates.size_le {limit : Nat} {phase : Phase} {s : Source} {out : Array UInt8} {r : Option Inflater}
    (h : Inflates limit phase s out r) (hout : out.size < limit + maxCopy) :
    ∀ x, r = some x → x.out.size < limit + maxCopy := by
  induction h with
  | ended | starved =>
    rintro x ⟨⟩
    exact hout
  | refused | wrong =>
    rintro x ⟨⟩
  | opened _ _ _ ih => exact ih hout
  | stored _ hroom _ ih => exact ih (size_take_le hroom hout)
  | storedPart _ _ hroom =>
    rintro x ⟨⟩
    exact size_take_le hroom hout
  | paused htokens =>
    rintro x ⟨⟩
    exact htokens.size_le hout
  | decoded htokens _ ih => exact ih (htokens.size_le hout)

end IconMaker.Deflate

namespace IconMaker.Zlib

open Deflate

/-! ## Streams in pieces -/

/-- One more piece. -/
inductive Fed (limit : Nat) (piece : Bytes) : Expansion → Option Expansion → Prop
  | waiting {bs : Bytes} : (bs ++ piece).length < 2 → Fed limit piece (.opening bs) (some (.opening (bs ++ piece)))
  | badHeader {bs r : Bytes} {a b : UInt8} : bs ++ piece = a :: b :: r → headerFits a b = false →
      Fed limit piece (.opening bs) none
  | opened {bs r : Bytes} {a b : UInt8} {x : Option Inflater} : bs ++ piece = a :: b :: r → headerFits a b = true →
      Inflates limit .block (Source.feed (.ofBytes []) r) #[] x → Fed limit piece (.opening bs) (x.map .body)
  | body {x : Inflater} {y : Option Inflater} : Inflates limit x.phase (x.source.feed piece) x.out y →
      Fed limit piece (.body x) (y.map .body)

/-- Expanding a stream that comes in pieces, up to a limit on the output. -/
inductive Unpacks (limit : Nat) : Expansion → List Bytes → Option (Array UInt8) → Prop
  | missing {x : Expansion} : Unpacks limit x [] none
  | wrong {x : Expansion} {piece : Bytes} {pieces : List Bytes} : Fed limit piece x none →
      Unpacks limit x (piece :: pieces) none
  | enough {x y : Expansion} {piece : Bytes} {pieces : List Bytes} {out : Array UInt8} : Fed limit piece x (some y) →
      y.output? limit = some out → Unpacks limit x (piece :: pieces) (some out)
  | more {x y : Expansion} {piece : Bytes} {pieces : List Bytes} {r : Option (Array UInt8)} : Fed limit piece x (some y) →
      y.output? limit = none → Unpacks limit y pieces r → Unpacks limit x (piece :: pieces) r

theorem fed_feed (limit : Nat) (piece : Bytes) (x : Expansion) : Fed limit piece x (x.feed limit piece) := by
  cases x with
  | body x => exact .body (inflates_advance ..)
  | opening bs =>
    unfold Expansion.feed
    dsimp only
    split
    · rename_i a b r hbytes
      split
      · exact .opened hbytes ‹_› (inflates_advance ..)
      · exact .badHeader hbytes (Bool.not_eq_true _ ▸ ‹_›)
    · rename_i hshort
      refine .waiting ?_
      match bs ++ piece, hshort with
      | [], _ | [_], _ => simp
      | a :: b :: r, hshort => exact absurd rfl (hshort a b r)

theorem unpacks_expandFrom (limit : Nat) (x : Expansion) (pieces : List Bytes) :
    Unpacks limit x pieces (expandFrom limit x pieces) := by
  induction pieces generalizing x with
  | nil => exact .missing
  | cons piece pieces ih =>
    have hfed := fed_feed limit piece x
    unfold expandFrom
    cases hfeed : x.feed limit piece with
    | none =>
      rw [hfeed] at hfed
      exact .wrong hfed
    | some y =>
      rw [hfeed] at hfed
      dsimp only
      cases hout : y.output? limit with
      | some out => exact .enough hfed hout
      | none => exact .more hfed hout (ih y)

theorem unpacks_expand (limit : Nat) (pieces : List Bytes) : Unpacks limit .start pieces (expand limit pieces) :=
  unpacks_expandFrom limit .start pieces

/-- The output so far ends less than a copy behind the limit. -/
def Expansion.Short (limit : Nat) : Expansion → Prop
  | .opening _ => True
  | .body x => x.out.size < limit + maxCopy

theorem Fed.short {limit : Nat} {piece : Bytes} {x : Expansion} {r : Option Expansion} (h : Fed limit piece x r)
    (hx : x.Short limit) : ∀ y, r = some y → y.Short limit := by
  cases h with
  | waiting _ =>
    rintro y ⟨⟩
    trivial
  | badHeader _ _ =>
    rintro y ⟨⟩
  | opened _ _ hinflates =>
    intro y hy
    obtain ⟨x, rfl, rfl⟩ := Option.map_eq_some_iff.1 hy
    exact hinflates.size_le (Nat.add_pos_right limit (by decide)) x rfl
  | body hinflates =>
    intro y hy
    obtain ⟨x, rfl, rfl⟩ := Option.map_eq_some_iff.1 hy
    exact hinflates.size_le hx x rfl

theorem size_of_output? {limit : Nat} {x : Expansion} {out : Array UInt8} (h : x.output? limit = some out)
    (hx : x.Short limit) : out.size < limit + maxCopy := by
  cases x with
  | opening bs => cases h
  | body x =>
    unfold Expansion.output? at h
    dsimp only at h
    split at h
    · cases h
      exact hx
    · cases h

theorem Unpacks.size_le {limit : Nat} {x : Expansion} {pieces : List Bytes} {r : Option (Array UInt8)}
    (h : Unpacks limit x pieces r) (hx : x.Short limit) : ∀ out, r = some out → out.size < limit + maxCopy := by
  induction h with
  | missing | wrong _ =>
    rintro out ⟨⟩
  | enough hfed hout =>
    rintro out ⟨⟩
    exact size_of_output? hout (hfed.short hx _ rfl)
  | more hfed _ _ ih => exact ih (hfed.short hx _ rfl)

end IconMaker.Zlib
