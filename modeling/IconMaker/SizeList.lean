import IconMaker.Size

/-
  IconMaker.SizeList — the sizes of an icon: ordered, at least one, no two alike.

  `ofList` accepts exactly the lists that meet this; of a list with repetitions it names the
  size whose second occurrence ends first. `text` joins the sizes with a comma and a blank.
-/

namespace IconMaker

structure SizeList where
  sizes : List Size
  nonempty : sizes ≠ []
  distinct : sizes.Nodup
  deriving DecidableEq, Repr

namespace SizeList

/-- The first size that occurs among those before it, `seen` being before them all. -/
def firstRepeat (seen : List Size) : List Size → Option Size
  | [] => none
  | s :: r => if s ∈ seen then some s else firstRepeat (s :: seen) r

theorem nodup_of_firstRepeat {seen l : List Size} (h : firstRepeat seen l = none) :
    l.Nodup ∧ ∀ s ∈ l, s ∉ seen := by
  induction l generalizing seen with
  | nil => simp
  | cons s r ih =>
    unfold firstRepeat at h
    split at h
    · cases h
    · rename_i hs
      obtain ⟨hn, hm⟩ := ih h
      refine ⟨List.nodup_cons.2 ⟨fun hr => hm s hr (List.mem_cons_self ..), hn⟩, ?_⟩
      intro t ht
      rcases List.mem_cons.1 ht with rfl | ht
      · exact hs
      · exact fun h' => hm t ht (List.mem_cons_of_mem _ h')

def ofList (l : List Size) : Except SizeError SizeList :=
  if he : l = [] then .error .empty
  else match hd : firstRepeat [] l with
    | some s => .error (.duplicate s)
    | none => .ok ⟨l, he, (nodup_of_firstRepeat hd).1⟩

def edges (l : SizeList) : List Nat := l.sizes.map Size.edge

/-- The sizes written when nothing else is asked for. -/
def default : SizeList where
  sizes := [⟨256, by decide, by decide⟩, ⟨128, by decide, by decide⟩, ⟨64, by decide, by decide⟩,
    ⟨48, by decide, by decide⟩, ⟨32, by decide, by decide⟩, ⟨16, by decide, by decide⟩]
  nonempty := by decide
  distinct := by decide

def joinText : List Size → List Char
  | [] => []
  | [s] => s.text
  | s :: r => s.text ++ ',' :: ' ' :: joinText r

def text (l : SizeList) : List Char := joinText l.sizes

end SizeList

end IconMaker
