import IconMaker.Icon
import IconMaker.Proofs.Bytes

/-
  IconMaker.Proofs.Icon — what a reader finds in an icon file.

  The reader has no part in the writer: it takes numbers from fixed places, six bytes of header
  and sixteen of each record, and cuts out the bytes that a record names. `describes_encode`
  says what stands in the header and the records, `payload_encode` what is cut out, and
  `tiled_encode` that the payloads follow each other from the directory to the end of the file.
  The numbers are those that are meant, and not what is left of them in four bytes, if the file
  is not too long (`Short`). `parse?` reads such a file and finds the same entries (`parse?_encode`).
-/

namespace IconMaker

namespace Icon

/-- The place of a record. -/
def recordPlace (i : Nat) : Nat := 6 + 16 * i

def payloadPlace (icon : Bytes) (i : Nat) : Nat := icon.number (recordPlace i + 12) 4

def payloadLength (icon : Bytes) (i : Nat) : Nat := icon.number (recordPlace i + 8) 4

/-- The bytes that record `i` names. -/
def payload (icon : Bytes) (i : Nat) : Bytes := icon.slice (payloadPlace icon i) (payloadLength icon i)

/-- An edge as a byte. -/
def edgeByte (edge : Nat) : Nat := if edge = 256 then 0 else edge

/-- The header, and of every record the edges, the reserved numbers and the depth. -/
structure Describes (icon : Bytes) (edges : List Nat) : Prop where
  reserved : icon.number 0 2 = 0
  kind : icon.number 2 2 = 1
  count : icon.number 4 2 = edges.length
  width : ∀ i edge, edges[i]? = some edge → icon.number (recordPlace i) 1 = edgeByte edge
  height : ∀ i edge, edges[i]? = some edge → icon.number (recordPlace i + 1) 1 = edgeByte edge
  unused : ∀ i < edges.length, icon.number (recordPlace i + 2) 4 = 0
  bits : ∀ i < edges.length, icon.number (recordPlace i + 6) 2 = 32

/-- The payloads of the records, `n` of them: one behind the other from the directory to the
    end, each within the file and none within another. -/
structure Tiled (icon : Bytes) (n : Nat) : Prop where
  first : 0 < n → payloadPlace icon 0 = 6 + 16 * n
  next : ∀ i, i + 1 < n → payloadPlace icon (i + 1) = payloadPlace icon i + payloadLength icon i
  last : ∀ i, i + 1 = n → payloadPlace icon i + payloadLength icon i = icon.length
  inside : ∀ i < n, payloadPlace icon i + payloadLength icon i ≤ icon.length
  apart : ∀ i j, i < j → j < n → payloadPlace icon i + payloadLength icon i ≤ payloadPlace icon j

variable {frames : List Frame} {icon : Bytes} {f : Frame} {i : Nat}

/-! ## Lengths -/

@[simp] theorem length_record (f : Frame) (offset : Nat) : (record f offset).length = 16 := by
  simp [record]

@[simp] theorem length_directory (offset : Nat) (fs : List Frame) : (directory offset fs).length = 16 * fs.length := by
  induction fs generalizing offset with
  | nil => rfl
  | cons f fs ih =>
    rw [directory, List.length_append, length_record, ih, List.length_cons]
    omega

theorem directory_append (offset : Nat) (fs gs : List Frame) :
    directory offset (fs ++ gs)
      = directory offset fs ++ directory (offset + (fs.flatMap Frame.payload).length) gs := by
  induction fs generalizing offset with
  | nil => rfl
  | cons f fs ih =>
    rw [List.cons_append, directory, directory, ih, List.append_assoc, List.flatMap_cons, List.length_append,
      Nat.add_assoc]

/-! ## What is written -/

def headerBytes (n : Nat) : Bytes := Bytes.le 2 0 ++ Bytes.le 2 1 ++ Bytes.le 2 n

@[simp] theorem length_headerBytes (n : Nat) : (headerBytes n).length = 6 := by
  simp [headerBytes]

/-- The place of payload `i`. -/
def start (frames : List Frame) (i : Nat) : Nat :=
  6 + 16 * frames.length + ((frames.take i).flatMap Frame.payload).length

theorem encode_eq (h : encode frames = some icon) :
    frames ≠ [] ∧ frames.length ≤ 65535 ∧
      icon = headerBytes frames.length ++ directory (start frames 0) frames ++ frames.flatMap Frame.payload := by
  unfold encode at h
  split at h
  · cases h
  · rename_i hn
    rw [not_or] at hn
    cases h
    exact ⟨hn.1, Nat.le_of_not_lt hn.2, rfl⟩

theorem frames_split (hf : frames[i]? = some f) :
    frames = frames.take i ++ f :: frames.drop (i + 1) ∧ (frames.take i).length = i := by
  obtain ⟨hi, rfl⟩ := List.getElem?_eq_some_iff.1 hf
  rw [← List.drop_eq_getElem_cons hi, List.take_append_drop, List.length_take]
  exact ⟨rfl, by omega⟩

theorem start_succ (hf : frames[i]? = some f) : start frames (i + 1) = start frames i + f.payload.length := by
  obtain ⟨hi, rfl⟩ := List.getElem?_eq_some_iff.1 hf
  unfold start
  rw [← List.take_append_getElem hi, List.flatMap_append, List.length_append, List.flatMap_singleton]
  omega

/-- Record `i` and what is around it. -/
theorem exists_record (h : encode frames = some icon) (hf : frames[i]? = some f) :
    ∃ a c, icon = a ++ (record f (start frames i) ++ c) ∧ a.length = recordPlace i := by
  obtain ⟨-, -, rfl⟩ := encode_eq h
  obtain ⟨hsplit, hlen⟩ := frames_split hf
  have hdir : directory (start frames 0) frames = directory (start frames 0) (frames.take i)
      ++ (record f (start frames i) ++ directory (start frames i + f.payload.length) (frames.drop (i + 1))) :=
    calc directory (start frames 0) frames
        = directory (start frames 0) (frames.take i ++ f :: frames.drop (i + 1)) := congrArg _ hsplit
      _ = _ := directory_append ..
  refine ⟨headerBytes frames.length ++ directory (start frames 0) (frames.take i),
    directory (start frames i + f.payload.length) (frames.drop (i + 1)) ++ frames.flatMap Frame.payload, ?_, ?_⟩
  · rw [hdir]
    simp only [List.append_assoc]
  · rw [List.length_append, length_headerBytes, length_directory, hlen]
    rfl

/-- Payload `i` and what is around it. -/
theorem exists_payload (h : encode frames = some icon) (hf : frames[i]? = some f) :
    ∃ a c, icon = a ++ (f.payload ++ c) ∧ a.length = start frames i := by
  obtain ⟨-, -, rfl⟩ := encode_eq h
  obtain ⟨hsplit, -⟩ := frames_split hf
  refine ⟨headerBytes frames.length ++ directory (start frames 0) frames ++ (frames.take i).flatMap Frame.payload,
    (frames.drop (i + 1)).flatMap Frame.payload, ?_, ?_⟩
  · have hall : frames.flatMap Frame.payload = (frames.take i).flatMap Frame.payload
        ++ (f.payload ++ (frames.drop (i + 1)).flatMap Frame.payload) := by
      rw [← List.flatMap_cons, ← List.flatMap_append, ← hsplit]
    rw [hall]
    simp only [List.append_assoc]
  · rw [List.length_append, List.length_append, length_headerBytes, length_directory]
    rfl

theorem start_length (h : encode frames = some icon) : start frames frames.length = icon.length := by
  obtain ⟨-, -, rfl⟩ := encode_eq h
  rw [List.length_append, List.length_append, length_headerBytes, length_directory, start, List.take_length]

theorem start_mono (frames : List Frame) {i j : Nat} (h : i ≤ j) : start frames i ≤ start frames j := by
  unfold start
  obtain ⟨k, rfl⟩ := Nat.le.dest h
  rw [List.take_add, List.flatMap_append, List.length_append]
  omega

/-! ## What is read -/

theorem number_header (h : encode frames = some icon) {place n : Nat} (hp : place + n ≤ 6) :
    icon.number place n = (headerBytes frames.length).number place n := by
  obtain ⟨-, -, rfl⟩ := encode_eq h
  have := Bytes.number_within [] (directory (start frames 0) frames ++ frames.flatMap Frame.payload)
    (b := headerBytes frames.length) (by rw [length_headerBytes]; exact hp)
  rwa [List.nil_append, List.length_nil, Nat.zero_add, ← List.append_assoc] at this

theorem number_record (h : encode frames = some icon) (hf : frames[i]? = some f) {place n : Nat} (hp : place + n ≤ 16) :
    icon.number (recordPlace i + place) n = (record f (start frames i)).number place n := by
  obtain ⟨a, c, rfl, ha⟩ := exists_record h hf
  rw [← ha, Bytes.number_within a c (by rw [length_record]; exact hp)]

/-- The file is short enough for the numbers in its records. -/
def Short (icon : Bytes) : Prop := icon.length < 2 ^ 32

theorem payload_bounds (h : encode frames = some icon) (hf : frames[i]? = some f) :
    start frames i + f.payload.length ≤ icon.length := by
  have hi := (List.getElem?_eq_some_iff.1 hf).1
  rw [← start_succ hf, ← start_length h]
  exact start_mono frames hi

theorem payloadLength_encode (h : encode frames = some icon) (hshort : Short icon) (hf : frames[i]? = some f) :
    payloadLength icon i = f.payload.length := by
  have hfit : f.payload.length < 256 ^ 4 := by
    have := payload_bounds h hf
    unfold Short at hshort
    omega
  have hnumber : (record f (start frames i)).number 8 4 = f.payload.length % 256 ^ 4 := Bytes.ofLE_le 4 _
  rw [payloadLength, number_record h hf (by decide), hnumber, Nat.mod_eq_of_lt hfit]

theorem payloadPlace_encode (h : encode frames = some icon) (hshort : Short icon) (hf : frames[i]? = some f) :
    payloadPlace icon i = start frames i := by
  have hfit : start frames i < 256 ^ 4 := by
    have := payload_bounds h hf
    unfold Short at hshort
    omega
  have hnumber : (record f (start frames i)).number 12 4 = start frames i % 256 ^ 4 := Bytes.ofLE_le 4 _
  rw [payloadPlace, number_record h hf (by decide), hnumber, Nat.mod_eq_of_lt hfit]

theorem number_edge {n : Nat} (hpos : 0 < n) (hle : n ≤ 256) : Bytes.ofLE [UInt8.ofNat n] = edgeByte n := by
  unfold edgeByte
  rw [Bytes.ofLE, Bytes.ofLE, UInt8.toNat_ofNat']
  split <;> omega

/-- A byte of record `i` that states one of the sides. -/
theorem number_side {edges : List Nat} {side : Frame → Nat} {edge : Nat} (place : Nat) (h : encode frames = some icon)
    (hp : place + 1 ≤ 16) (hside : ∀ f offset, (record f offset).number place 1 = Bytes.ofLE [UInt8.ofNat (side f)])
    (hedges : ∀ n ∈ edges, 0 < n ∧ n ≤ 256) (hs : frames.map side = edges) (he : edges[i]? = some edge) :
    icon.number (recordPlace i + place) 1 = edgeByte edge := by
  obtain ⟨hpos, hle⟩ := hedges edge (List.mem_of_getElem? he)
  rw [← hs, List.getElem?_map, Option.map_eq_some_iff] at he
  obtain ⟨f, hf, rfl⟩ := he
  rw [number_record h hf hp, hside, number_edge hpos hle]

theorem describes_encode {edges : List Nat} (h : encode frames = some icon) (hw : frames.map Frame.width = edges)
    (hh : frames.map Frame.height = edges) (hedges : ∀ n ∈ edges, 0 < n ∧ n ≤ 256) : Describes icon edges := by
  have hlen : edges.length = frames.length := by rw [← hw, List.length_map]
  have hframe : ∀ i < edges.length, ∃ f, frames[i]? = some f := fun i hi =>
    ⟨_, List.getElem?_eq_getElem (hlen ▸ hi)⟩
  have hcount : (headerBytes frames.length).number 4 2 = frames.length % 256 ^ 2 := Bytes.ofLE_le 2 _
  have hfew := (encode_eq h).2.1
  refine ⟨?_, ?_, ?_, fun i edge => ?_, fun i edge => ?_, fun i hi => ?_, fun i hi => ?_⟩
  · exact number_header h (by decide)
  · exact number_header h (by decide)
  · rw [number_header h (by decide), hcount, hlen, Nat.mod_eq_of_lt (by omega)]
  · exact number_side 0 h (by decide) (fun _ _ => rfl) hedges hw
  · exact number_side 1 h (by decide) (fun _ _ => rfl) hedges hh
  · obtain ⟨f, hf⟩ := hframe i hi
    exact number_record h hf (by decide)
  · obtain ⟨f, hf⟩ := hframe i hi
    exact number_record h hf (by decide)

theorem payload_encode (h : encode frames = some icon) (hshort : Short icon) (hf : frames[i]? = some f) :
    payload icon i = f.payload := by
  rw [payload, payloadPlace_encode h hshort hf, payloadLength_encode h hshort hf]
  obtain ⟨a, c, rfl, ha⟩ := exists_payload h hf
  rw [← ha, Bytes.slice_middle]

theorem tiled_encode (h : encode frames = some icon) (hshort : Short icon) : Tiled icon frames.length := by
  have hplace : ∀ i < frames.length, payloadPlace icon i = start frames i := fun i hi =>
    payloadPlace_encode h hshort (List.getElem?_eq_getElem hi)
  have hend : ∀ i < frames.length, payloadPlace icon i + payloadLength icon i = start frames (i + 1) := by
    intro i hi
    have hf := List.getElem?_eq_getElem hi
    rw [hplace i hi, payloadLength_encode h hshort hf, start_succ hf]
  refine ⟨fun hn => hplace 0 hn, fun i hi => ?_, fun i hi => ?_, fun i hi => ?_, fun i j hij hj => ?_⟩
  · rw [hend i (by omega), hplace _ hi]
  · rw [hend i (by omega), hi, start_length h]
  · rw [hend i hi, ← start_length h]
    exact start_mono frames hi
  · rw [hend i (by omega), hplace j hj]
    exact start_mono frames hij

/-! ## Reading the whole file -/

/-- The record of an entry whose payload is at `offset`. -/
def Record.of (f : Frame) (offset : Nat) : Record :=
  ⟨UInt8.ofNat f.width, UInt8.ofNat f.height, 0, 0, 0, 32, f.payload.length, offset⟩

def entriesFrom : Nat → List Frame → List (Record × Bytes)
  | _, [] => []
  | offset, f :: fs => (Record.of f offset, f.payload) :: entriesFrom (offset + f.payload.length) fs

theorem ofBytes?_record {offset : Nat} (rest : Bytes) (hlen : f.payload.length < 2 ^ 32) (hoff : offset < 2 ^ 32) :
    Record.ofBytes? (record f offset ++ rest) = some (Record.of f offset, rest) := by
  have hlength : Bytes.ofLE (Bytes.le 4 f.payload.length) = f.payload.length := by
    rw [Bytes.ofLE_le, Nat.mod_eq_of_lt hlen]
  have hplace : Bytes.ofLE (Bytes.le 4 offset) = offset := by
    rw [Bytes.ofLE_le, Nat.mod_eq_of_lt hoff]
  have hread : Record.ofBytes? (record f offset ++ rest)
      = some (⟨UInt8.ofNat f.width, UInt8.ofNat f.height, 0, 0, 0, 32, Bytes.ofLE (Bytes.le 4 f.payload.length),
        Bytes.ofLE (Bytes.le 4 offset)⟩, rest) := rfl
  rw [hread, hlength, hplace]
  rfl

theorem records?_directory {offset : Nat} (fs : List Frame) (rest : Bytes)
    (hfit : offset + (fs.flatMap Frame.payload).length < 2 ^ 32) :
    records? fs.length (directory offset fs ++ rest) = some ((entriesFrom offset fs).map Prod.fst, rest) := by
  induction fs generalizing offset with
  | nil => rfl
  | cons f fs ih =>
    rw [List.flatMap_cons, List.length_append] at hfit
    rw [directory, List.length_cons, List.append_assoc, records?, ofBytes?_record _ (by omega) (by omega)]
    dsimp only
    rw [ih (by omega)]
    rfl

theorem payloads?_cons (f : Frame) (offset : Nat) (rs : List Record) (rest : Bytes) :
    payloads? offset (Record.of f offset :: rs) (f.payload ++ rest)
      = (payloads? (offset + f.payload.length) rs rest).map ((Record.of f offset, f.payload) :: ·) := by
  simp only [payloads?, Record.of, if_true, Bytes.split?_append]

theorem payloads?_entriesFrom (offset : Nat) (fs : List Frame) :
    payloads? offset ((entriesFrom offset fs).map Prod.fst) (fs.flatMap Frame.payload) = some (entriesFrom offset fs) := by
  induction fs generalizing offset with
  | nil => rfl
  | cons f fs ih =>
    rw [entriesFrom, List.map_cons, List.flatMap_cons, payloads?_cons, ih]
    rfl

theorem parse?_headerBytes {n : Nat} {rs : List Record} {rest r : Bytes} (hn : n ≤ 65535)
    (h : records? n rest = some (rs, r)) : parse? (headerBytes n ++ rest) = payloads? (6 + 16 * n) rs r := by
  have hcount : Bytes.ofLE [UInt8.ofNat n, UInt8.ofNat (n / 256)] = n := by
    have := Bytes.ofLE_le 2 n
    rwa [Nat.mod_eq_of_lt (by omega)] at this
  simp only [headerBytes, parse?, Bytes.le, List.cons_append, List.nil_append]
  rw [if_pos (by decide), hcount, h]
  rfl

theorem parse?_encode (h : encode frames = some icon) (hshort : Short icon) :
    parse? icon = some (entriesFrom (start frames 0) frames) := by
  have hend := start_length h
  obtain ⟨-, hle, rfl⟩ := encode_eq h
  have hfit : start frames 0 + (frames.flatMap Frame.payload).length < 2 ^ 32 := by
    rw [start, List.take_length] at hend
    unfold Short at hshort
    rwa [← hend] at hshort
  rw [List.append_assoc, parse?_headerBytes hle (records?_directory frames _ hfit)]
  exact payloads?_entriesFrom (start frames 0) frames

theorem map_payload_entriesFrom (offset : Nat) (fs : List Frame) :
    (entriesFrom offset fs).map Prod.snd = fs.map Frame.payload := by
  induction fs generalizing offset with
  | nil => rfl
  | cons f fs ih => rw [entriesFrom, List.map_cons, List.map_cons, ih]

end Icon

end IconMaker
