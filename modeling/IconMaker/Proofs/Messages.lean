import IconMaker.Conversion
import IconMaker.Proofs.Size
import IconMaker.Proofs.Text.Quoted

/-
  IconMaker.Proofs.Messages — an error message with a path or a text in it is one line, and it
  tells which path or text it is.

  The words of such a message are fixed for its kind, and what it names stands quoted between them
  (`message_of_about`, `message_malformed`). So the message is legible throughout, and a reader of
  the quoted part finds what is named and then the words behind it.
  - `kind_and_path_of_message`: the message determines its kind and its path, but not the cause.
  - `malformed_of_message`: it determines the text of a size that was not understood.
  - `messages_quote_what_they_name`: all of it, for every byte string and every text.
-/

namespace IconMaker

/-- What stands between two words in a message. -/
theorem toList_between (a b : String) (t : List Char) :
    (a ++ String.ofList t ++ b).toList = a.toList ++ t ++ b.toList := by
  rw [String.toList_append, String.toList_append]
  exact congrArg (a.toList ++ · ++ b.toList) String.toList_ofList

namespace ConvertError

/-- The kinds of errors that name a path. -/
inductive Kind where
  | inputNotFound
  | inputUnreadable
  | undecodable
  | outputUnwritable
  deriving DecidableEq

/-- The error is of this kind and names this path, whatever its cause is. -/
inductive About : Kind → Path → ConvertError → Prop
  | inputNotFound (p : Path) : About .inputNotFound p (.inputNotFound p)
  | inputUnreadable (p : Path) (cause : IoError) : About .inputUnreadable p (.inputUnreadable p cause)
  | undecodable (p : Path) : About .undecodable p (.undecodable p)
  | outputUnwritable (p : Path) (cause : IoError) : About .outputUnwritable p (.outputUnwritable p cause)

/-- The words in front of the path. -/
def Kind.opening : Kind → List Char
  | outputUnwritable => "Output icon ".toList
  | _ => "Input image ".toList

/-- The words behind the path. -/
def Kind.ending : Kind → List Char
  | inputNotFound => " does not exist".toList
  | inputUnreadable => " could not be read".toList
  | undecodable => " is not a decodable PNG".toList
  | outputUnwritable => " could not be written".toList

variable {k k' : Kind} {p p' : Path} {e e' : ConvertError}

theorem message_of_about (h : About k p e) : e.message.toList = k.opening ++ Text.quotedBytes p ++ k.ending := by
  cases h with
  | inputNotFound | inputUnreadable | undecodable | outputUnwritable => exact toList_between ..

theorem legible_words (k : Kind) : Text.Legible k.opening ∧ Text.Legible k.ending := by
  cases k with
  | inputNotFound | inputUnreadable | undecodable | outputUnwritable =>
    exact ⟨Text.legible_literal (by simp), Text.legible_literal (by simp)⟩

theorem legible_message (h : About k p e) : Text.Legible e.message.toList := by
  obtain ⟨hopening, hending⟩ := legible_words k
  rw [message_of_about h]
  exact Text.legible_append (Text.legible_append hopening (Text.faithful_quotedBytes.legible p)) hending

/-- The opening words are of one length, so two messages that are the same have them the same. -/
theorem opening_of_message (h : About k p e) (h' : About k' p' e') (hm : e.message = e'.message) :
    k.opening = k'.opening ∧ Text.quotedBytes p ++ k.ending = Text.quotedBytes p' ++ k'.ending := by
  have hlength : ∀ a : Kind, a.opening.length = 12 := fun a => by cases a <;> rfl
  have heq := congrArg String.toList hm
  rw [message_of_about h, message_of_about h', List.append_assoc, List.append_assoc] at heq
  exact List.append_inj heq ((hlength k).trans (hlength k').symm)

theorem kind_and_path_of_message (h : About k p e) (h' : About k' p' e') (hm : e.message = e'.message) :
    k = k' ∧ p = p' := by
  have hkinds : ∀ a b : Kind, a.opening = b.opening → a.ending = b.ending → a = b := by
    intro a b
    cases a <;> cases b <;> decide
  obtain ⟨hopening, hquoted⟩ := opening_of_message h h' hm
  obtain ⟨hpath, hending⟩ := Text.faithful_quotedBytes.cancel hquoted
  exact ⟨hkinds k k' hopening hending, hpath⟩

end ConvertError

namespace SizeError

variable {s t t' : List Char}

theorem message_malformed (t : List Char) :
    (malformed t).message.toList = "Invalid icon size ".toList ++ Text.quoted t ++ ", expected N or NxN".toList :=
  toList_between ..

theorem legible_malformed (t : List Char) : Text.Legible (malformed t).message.toList := by
  rw [message_malformed]
  exact Text.legible_append (Text.legible_append (Text.legible_literal (by simp)) (Text.faithful_quoted.legible t))
    (Text.legible_literal (by simp))

theorem malformed_of_message (hm : (malformed t).message = (malformed t').message) : t = t' := by
  have heq := congrArg String.toList hm
  rw [message_malformed, message_malformed, List.append_assoc, List.append_assoc] at heq
  exact (Text.faithful_quoted.cancel (List.append_cancel_left heq)).1

/-- The text that is named is the one that was given, without the blanks around it. -/
theorem trim_of_malformed (h : Size.parse s = .error (.malformed t)) : Text.trim s = t := by
  cases Size.parse_eq_error_iff.1 h with
  | malformed ht => exact Size.trim_of_trimmed ht

end SizeError

/-- Paths and texts are quoted faithfully, and between words of one line. So a message is one line,
    and the messages of two errors are the same only if the errors are of one kind and name the
    same: one path, or one text without the blanks around it. -/
theorem messages_quote_what_they_name :
    Text.Faithful Text.quotedBytes Text.unquotedBytes? ∧ Text.Faithful Text.quoted Text.unquoted? ∧
    (∀ k p e, ConvertError.About k p e →
      e.message.toList = k.opening ++ Text.quotedBytes p ++ k.ending ∧ Text.Legible e.message.toList) ∧
    (∀ k k' p p' e e', ConvertError.About k p e → ConvertError.About k' p' e' → e.message = e'.message →
      k = k' ∧ p = p') ∧
    (∀ t, (SizeError.malformed t).message.toList =
        "Invalid icon size ".toList ++ Text.quoted t ++ ", expected N or NxN".toList ∧
      Text.Legible (SizeError.malformed t).message.toList) ∧
    (∀ t t', (SizeError.malformed t).message = (SizeError.malformed t').message → t = t') ∧
    (∀ s t, Size.parse s = .error (.malformed t) → Text.trim s = t) :=
  ⟨Text.faithful_quotedBytes, Text.faithful_quoted,
    fun _ _ _ h => ⟨ConvertError.message_of_about h, ConvertError.legible_message h⟩,
    fun _ _ _ _ _ _ h h' hm => ConvertError.kind_and_path_of_message h h' hm,
    fun t => ⟨SizeError.message_malformed t, SizeError.legible_malformed t⟩,
    fun _ _ hm => SizeError.malformed_of_message hm,
    fun _ _ h => SizeError.trim_of_malformed h⟩

/-- The byte 0xff alone, and four characters that look like its escape. -/
def brokenName : Path := [0xff]

def escapeName : Path := [0x5c, 0x78, 0x46, 0x46]

/-- A size that is not understood, and its text without the blanks. -/
def brokenSize : List Char := ['\n', '1', ' ', '6', ' ']

theorem parse_brokenSize : Size.parse brokenSize = .error (.malformed ['1', ' ', '6']) := rfl

/-- The cause does not show in a message, so that two errors have the same one. A broken byte does,
    and it is not taken for the characters of its escape. -/
theorem a_broken_name_is_not_its_escape :
    (ConvertError.inputUnreadable brokenName .permissionDenied).message =
      (ConvertError.inputUnreadable brokenName .isADirectory).message ∧
    (∀ c c', (ConvertError.inputUnreadable brokenName c).message ≠
      (ConvertError.inputUnreadable escapeName c').message) ∧
    Text.Legible (ConvertError.inputNotFound brokenName).message.toList ∧
    Text.trim brokenSize = ['1', ' ', '6'] := by
  obtain ⟨-, -, hwords, htold, -, -, htrim⟩ := messages_quote_what_they_name
  have hsame : (ConvertError.inputUnreadable brokenName .permissionDenied).message =
      (ConvertError.inputUnreadable brokenName .isADirectory).message := rfl
  have hapart : brokenName ≠ escapeName := by decide
  refine ⟨hsame, fun c c' hm => hapart ?_, (hwords _ _ _ (.inputNotFound brokenName)).2, htrim _ _ parse_brokenSize⟩
  exact (htold _ _ _ _ _ _ (.inputUnreadable brokenName c) (.inputUnreadable escapeName c') hm).2

end IconMaker
