import LambdaSyntax.Proofs.Rows
import LambdaSyntax.Rejection

/-!
What a rejection message tells.

A message names the fault, the position and, for a character that does not occur in the notation,
the character itself, which it quotes. No two rejections have the same message, although neither
numerals nor quoted characters have a fixed width: a quoted character reads back whatever follows
it (`Text.unescape_escape`), and then the texts around a position depend on the fault alone. A
message is one row of a text, since a newline is quoted by an escape.

* `Text.hexValue_toDigits`: a hexadecimal numeral reads back.
* `Text.unescape_escape`: an escaped character reads back, whatever follows it.
* `Rejection.message_injective`: a message tells its rejection.
* `Rejection.newline_not_mem_message`: a message is one row.
-/

namespace LambdaSyntax

namespace Text

/-! ### Numerals -/

/-- The value of a hexadecimal digit. -/
def hexDigitValue (c : Char) : Nat :=
  if c.isDigit then c.toNat - '0'.toNat else c.toNat - 'a'.toNat + 10

/-- The value of a hexadecimal numeral. -/
def hexValue (digits : List Char) : Nat :=
  digits.foldl (fun value c => 16 * value + hexDigitValue c) 0

theorem hexDigitValue_digitChar {digit : Nat} (h : digit < 16) :
    hexDigitValue digit.digitChar = digit := by
  have hall : ∀ digit < 16, hexDigitValue (Nat.digitChar digit) = digit := by decide
  exact hall digit h

/-- A hexadecimal numeral reads back. -/
theorem hexValue_toDigits (n : Nat) : hexValue (Nat.toDigits 16 n) = n := by
  induction n using Nat.strongRecOn with
  | ind n ih =>
      rw [Nat.toDigits_eq_if (by decide)]
      split
      · rename_i hdigit
        simp [hexValue, hexDigitValue_digitChar hdigit]
      · have hinit := ih (n / 16) (by omega)
        have hlast := hexDigitValue_digitChar (Nat.mod_lt n (by decide : 0 < 16))
        rw [hexValue, List.foldl_append, ← hexValue, hinit]
        simp only [List.foldl_cons, List.foldl_nil, hlast]
        omega

/-- A numeral has no characters but digits. -/
theorem exists_digitChar_of_mem_toDigits {base n : Nat} (hbase : 1 < base) {c : Char}
    (h : c ∈ Nat.toDigits base n) : ∃ digit, c = Nat.digitChar digit := by
  induction n using Nat.strongRecOn with
  | ind n ih =>
      rw [Nat.toDigits_eq_if hbase] at h
      split at h
      · exact ⟨n, List.mem_singleton.mp h⟩
      · rcases List.mem_append.mp h with hinit | hlast
        · exact ih (n / base) (Nat.div_lt_self (by omega) hbase) hinit
        · exact ⟨n % base, List.mem_singleton.mp hlast⟩

/-! ### Quoted characters -/

/-- The characters with a short escape, and what stands behind the backslash. -/
def shortEscapes : List (Char × Char) :=
  [('\x00', '0'), ('\t', 't'), ('\n', 'n'), ('\r', 'r'), ('\'', '\''), ('\\', '\\')]

/-- Reads the character that an escape at the front of a text stands for. -/
def unescape : List Char → Option Char
  | '\\' :: 'u' :: '\x7b' :: rest =>
    some (Char.ofNat (hexValue (rest.takeWhile (· != '\x7d'))))
  | '\\' :: short :: _ => (shortEscapes.find? (·.2 == short)).map Prod.fst
  | c :: _ => some c
  | [] => none

/-- **An escaped character reads back**, whatever follows it. -/
theorem unescape_escape (c : Char) (rest : List Char) : unescape (escape c ++ rest) = some c := by
  unfold escape
  split
  · rfl
  · rfl
  · rfl
  · rfl
  · rfl
  · rfl
  · rename_i hbackslash
    split
    · have hdigits : ∀ d ∈ Nat.toDigits 16 c.toNat, (d != '\x7d') = true := by
        intro d hd
        obtain ⟨digit, rfl⟩ := exists_digitChar_of_mem_toDigits (by decide) hd
        exact bne_iff_ne.mpr (Nat.digitChar_ne '\x7d' (by decide))
      have htake : (Nat.toDigits 16 c.toNat ++ '\x7d' :: rest).takeWhile (· != '\x7d') =
          Nat.toDigits 16 c.toNat :=
        (takeWhile_dropWhile_append hdigits (by simp)).1
      simp [hexEscape, unescape, htake, hexValue_toDigits]
    · rw [List.singleton_append, unescape]
      · rintro _ rfl
        exact absurd rfl hbackslash
      · rintro _ _ rfl
        exact absurd rfl hbackslash

theorem newline_not_mem_quote (c : Char) : '\n' ∉ quote c := by
  have hescape : '\n' ∉ escape c := by
    unfold escape
    split
    · decide
    · decide
    · decide
    · decide
    · decide
    · decide
    · rename_i hnewline _ _ _
      split
      · simp only [hexEscape, List.mem_append, List.mem_cons, List.not_mem_nil, or_false, not_or]
        refine ⟨⟨by decide, fun hdigits => ?_⟩, by decide⟩
        obtain ⟨digit, hdigit⟩ := exists_digitChar_of_mem_toDigits (by decide) hdigits
        exact Nat.digitChar_ne '\n' (by decide) hdigit.symm
      · simpa using Ne.symm hnewline
  simpa [quote] using hescape

end Text

/-! ### Messages -/

namespace Fault

/-- The text of a message before the position. -/
def lead : Fault → String
  | .unmatchedClosing => "Bracket ) at index "
  | .unmatchedOpening => "Bracket ( at index "
  | .blankAfterLambda => "Invalid whitespace after \\ at index "
  | .leadingDigit => "Error at index "
  | .misplacedDot => "Dot at index "
  | .emptyGroup => "Missing expression for parenthesis at index "
  | .missingParameter => "Backslash at index "
  | .illegalCharacter c => "Illegal character " ++ String.ofList (Text.quote c) ++ " at index "

/-- The text of a message behind the position. -/
def trail : Fault → String
  | .unmatchedClosing => " is not matched with a (."
  | .unmatchedOpening => " is not matched with a )."
  | .leadingDigit => ", variables cannot begin with digits."
  | .misplacedDot => " must directly follow a variable name."
  | .missingParameter => " is not followed by a single-letter variable name."
  | .blankAfterLambda | .emptyGroup | .illegalCharacter _ => "."

/-- Reads off the front of a message which fault it reports. -/
def ofMessage (text : List Char) : Option Fault :=
  match text with
  | 'B' :: 'r' :: _ =>
    if text[8]? = some ')' then some .unmatchedClosing else some .unmatchedOpening
  | 'I' :: 'n' :: _ => some .blankAfterLambda
  | 'E' :: _ => some .leadingDigit
  | 'D' :: _ => some .misplacedDot
  | 'M' :: _ => some .emptyGroup
  | 'B' :: 'a' :: _ => some .missingParameter
  | 'I' :: 'l' :: _ => (Text.unescape (text.drop 19)).map illegalCharacter
  | _ => none

/-- The text before the position tells the fault, whatever follows it. -/
theorem ofMessage_lead (fault : Fault) (rest : List Char) :
    ofMessage (fault.lead.toList ++ rest) = some fault := by
  unfold lead
  cases fault with
  | illegalCharacter c => simp [ofMessage, Text.quote, Text.unescape_escape]
  | _ => simp [ofMessage]

theorem newline_not_mem_lead (fault : Fault) : '\n' ∉ fault.lead.toList := by
  unfold lead
  cases fault <;> simp [Text.newline_not_mem_quote]

theorem newline_not_mem_trail (fault : Fault) : '\n' ∉ fault.trail.toList := by
  cases fault <;> simp [trail]

end Fault

namespace Rejection

theorem message_eq (rejection : Rejection) :
    rejection.message =
      rejection.fault.lead ++ toString rejection.position ++ rejection.fault.trail := by
  obtain ⟨fault, position⟩ := rejection
  cases fault <;> rfl

/-- **A message tells its rejection.** -/
theorem message_injective {rejection rejection' : Rejection}
    (h : rejection.message = rejection'.message) : rejection = rejection' := by
  obtain ⟨fault, position⟩ := rejection
  obtain ⟨fault', position'⟩ := rejection'
  have htexts := congrArg String.toList h
  simp only [message_eq, String.toList_append, List.append_assoc] at htexts
  have hfault := congrArg Fault.ofMessage htexts
  rw [Fault.ofMessage_lead, Fault.ofMessage_lead] at hfault
  obtain rfl := Option.some.inj hfault
  have hnumerals := List.append_cancel_right (List.append_cancel_left htexts)
  rw [Nat.toString_eq_repr, Nat.toString_eq_repr, Nat.toList_repr, Nat.toList_repr] at hnumerals
  have hposition := congrArg (Nat.ofDigitChars 10 · 0) hnumerals
  simp only [Nat.ofDigitChars_ten_toDigits] at hposition
  rw [hposition]

theorem newline_not_mem_toString (n : Nat) : '\n' ∉ (toString n).toList := by
  rw [Nat.toString_eq_repr, Nat.toList_repr]
  intro hmem
  obtain ⟨digit, hdigit⟩ := Text.exists_digitChar_of_mem_toDigits (by decide) hmem
  exact Nat.digitChar_ne '\n' (by decide) hdigit.symm

/-- **A message is one row.** -/
theorem newline_not_mem_message (rejection : Rejection) : '\n' ∉ rejection.message.toList := by
  simp only [message_eq, String.toList_append, List.mem_append, not_or]
  exact ⟨⟨Fault.newline_not_mem_lead _, newline_not_mem_toString _⟩, Fault.newline_not_mem_trail _⟩

end Rejection

end LambdaSyntax
