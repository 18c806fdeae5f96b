import Qrelay.NetstringLanguage

/-! `QmqpMail::Parse` of djb/QmqpMail.cxx: a message, a sender and at least one
recipient, each one a netstring. The fields are views into the input, and the
tail starts one byte before the parser's position. -/

namespace Qrelay
open Lib Lib.Decimal Lib.PrefixCode

structure QmqpMail (κ : Type) where
  message : StringView κ := none
  tail : StringView κ := none
  sender : StringView κ := none
  recipients : List (View κ) := []
  deriving DecidableEq, Repr

namespace QmqpMail

def maxRecipients : ℕ := 1024

inductive ParseResult where
  | success
  | malformed
  | badAddress
  | tooManyRecipients
  deriving DecidableEq, Repr

section Code

variable (lib : Libcommon) {κ : Type} (mem : κ → Bytes)

/-- `MakeStringView(input.begin() - 1, input.end())`. -/
def fromOneBefore (input : View κ) : Except Fault (View κ) :=
  if 1 ≤ input.offset then .ok ⟨input.storage, input.offset - 1, input.size + 1⟩
  else .error .outOfRange

/-- The loop over the recipients; one unit of fuel is one iteration. -/
def parseRecipients : ℕ → View κ → QmqpMail κ → Except Fault (ParseResult × QmqpMail κ)
  | 0, _, _ => .error .endless
  | fuel + 1, input, mail => do
    let (value, input) ← parseNetstring lib mem input
    match value with
    | none => return (.malformed, mail)
    | some value =>
      if ¬ lib.verifyEmailAddress (value.contents mem) then
        return (.badAddress, mail)
      if mail.recipients.length ≥ maxRecipients then
        return (.tooManyRecipients, mail)
      let mail := { mail with recipients := mail.recipients ++ [value] }
      if input.size ≠ 0 then
        parseRecipients fuel input mail
      else
        return (.success, mail)

def parse (input : View κ) (mail : QmqpMail κ) : Except Fault (ParseResult × QmqpMail κ) := do
  let (message, input) ← parseNetstring lib mem input
  if message = none then
    return (.malformed, mail)
  let mail := { mail with message }
  let (sender, input) ← parseNetstring lib mem input
  match sender with
  | none => return (.malformed, mail)
  | some sender =>
    if ¬ lib.verifyEmailAddress (sender.contents mem) then
      return (.badAddress, mail)
    let mail := { mail with sender := some sender }
    let tail ← fromOneBefore input
    let mail := { mail with tail := some tail }
    parseRecipients lib mem (input.size + 1) input mail

end Code

section Spec

variable {lib : Libcommon} {κ : Type} {mem : Memory κ} {input : View κ} {mail : QmqpMail κ}

abbrev valueOf (input : View κ) (w x : Bytes) : View κ :=
  input.part (w.length - (x.length + 1)) x.length

theorem Word.length_lt {w x : Bytes} (hw : Word w x) : x.length + 1 < w.length := by
  obtain ⟨digits, ⟨nonempty, -⟩, rfl⟩ := hw
  have := List.length_pos_iff.mpr nonempty
  simp
  omega

theorem Word.ends_with_comma {w x : Bytes} (hw : Word w x) : ∃ u, w = u ++ [comma] := by
  obtain ⟨digits, -, rfl⟩ := hw
  exact ⟨digits ++ colon :: x, by simp⟩

theorem within_next (h : input.Within mem.bytes) {w r : Bytes}
    (eq : input.contents mem.bytes = w ++ r) : (input.dropFront w.length).Within mem.bytes := by
  have length := h.length_contents
  rw [eq, List.length_append] at length
  exact h.part (by omega)

theorem size_next (h : input.Within mem.bytes) {w r : Bytes}
    (eq : input.contents mem.bytes = w ++ r) : (input.dropFront w.length).size = r.length := by
  rw [← (within_next h eq).length_contents, contents_next h eq]

variable (lib mail) in
theorem parseRecipients_word (h : input.Within mem.bytes) {w x r : Bytes} (hw : Word w x)
    (eq : input.contents mem.bytes = w ++ r) (fuel : ℕ) :
    parseRecipients lib mem.bytes (fuel + 1) input mail =
      if ¬ lib.verifyEmailAddress x then .ok (.badAddress, mail)
      else if maxRecipients ≤ mail.recipients.length then .ok (.tooManyRecipients, mail)
      else if r = [] then
        .ok (.success, { mail with recipients := mail.recipients ++ [valueOf input w x] })
      else parseRecipients lib mem.bytes fuel (input.dropFront w.length)
        { mail with recipients := mail.recipients ++ [valueOf input w x] } := by
  rw [parseRecipients, parseNetstring_word h hw eq]
  simp only [bind, Except.bind, pure, Except.pure, contents_value h hw eq, size_next h eq,
    ge_iff_le, ne_eq, List.length_eq_zero_iff]
  by_cases empty : r = [] <;> simp [empty]

theorem parseRecipients_stuck (h : input.Within mem.bytes)
    (stuck : Stuck Word (input.contents mem.bytes)) (fuel : ℕ) :
    parseRecipients lib mem.bytes (fuel + 1) input mail = .ok (.malformed, mail) := by
  rw [parseRecipients, parseNetstring_stuck h stuck]
  rfl

end Spec

end QmqpMail

end Qrelay
