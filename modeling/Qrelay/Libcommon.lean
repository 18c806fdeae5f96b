import Qrelay.Lib.Decimal
import Qrelay.Lib.View
import Mathlib.Data.FinEnum
import Mathlib.Data.List.TakeWhile

/-! The parts of libcommon and fmt that the relay calls, as parameters with
the behaviour it relies on. `Libcommon.reference` is one library that behaves
as documented; the runs on concrete inputs use it. -/

namespace Qrelay
open Lib Lib.Decimal

abbrev Bytes := List UInt8

def sizeLimit : ℕ := 2 ^ 64

/-- Addressable storage: the length of each one is a `std::size_t`. -/
structure Memory (κ : Type) where
  bytes : κ → Bytes
  size_lt : ∀ k, (bytes k).length < sizeLimit

structure Buffer where
  bytes : Bytes
  size_lt : bytes.length < sizeLimit

def Buffer.memory (b : Buffer) : Memory Unit := ⟨fun _ => b.bytes, fun _ => b.size_lt⟩

def Buffer.view (b : Buffer) : View Unit := View.whole b.memory.bytes ()

/-- A `std::string_view`, `none` when its data pointer is null. -/
abbrev StringView (κ : Type) := Option (View κ)

namespace StringView

variable {κ : Type}

def contents (mem : κ → Bytes) : StringView κ → Bytes
  | some v => v.contents mem
  | none => []

def size : StringView κ → ℕ
  | some v => v.size
  | none => 0

end StringView

def totalSize {κ : Type} (list : List (StringView κ)) : ℕ :=
  (list.map StringView.size).sum % sizeLimit

theorem sizeLimit_pos : 0 < sizeLimit := Nat.two_pow_pos 64

def isSpace (b : UInt8) : Bool := b ≤ 32

structure Libcommon where
  /-- `Split(std::string_view, char)`; the second part is null without a separator. -/
  split : {κ : Type} → (κ → Bytes) → View κ → UInt8 → View κ × Option (View κ)
  split_none : ∀ {κ : Type} (mem : κ → Bytes) (v : View κ) (c : UInt8), v.Within mem →
    c ∉ v.contents mem → split mem v c = (v, none)
  split_some : ∀ {κ : Type} (mem : κ → Bytes) (v : View κ) (c : UInt8) (pre post : Bytes),
    v.Within mem → v.contents mem = pre ++ c :: post → c ∉ pre →
    split mem v c = (v.part 0 pre.length, some (v.dropFront (pre.length + 1)))
  /-- `ParseIntegerTo(std::string_view, std::size_t &)`. -/
  parseIntegerTo : Bytes → Option ℕ
  parseIntegerTo_iff : ∀ s n, parseIntegerTo s = some n ↔
    s ≠ [] ∧ (∀ b ∈ s, IsDigit b) ∧ value s = n ∧ n < sizeLimit
  /-- `StripLeft(std::string_view)`. -/
  stripLeft : {κ : Type} → (κ → Bytes) → View κ → View κ
  stripLeft_eq : ∀ {κ : Type} (mem : κ → Bytes) (v : View κ), v.Within mem →
    stripLeft mem v = v.dropFront ((v.contents mem).takeWhile isSpace).length
  verifyEmailAddress : Bytes → Bool
  /-- `NetstringHeader::operator()(std::size_t)`. -/
  netstringHeader : ℕ → Bytes
  netstringHeader_eq : ∀ n, n < sizeLimit → netstringHeader n = numeral n ++ ascii ":"
  /-- `NetstringGenerator::operator()(list, true)`, with the storages of the
  generator's header and of the comma; it also gives the text of the header. -/
  netstringGenerator : {κ : Type} → κ → κ → List (StringView κ) → List (StringView κ) × Bytes
  netstringGenerator_eq : ∀ {κ : Type} (header comma : κ) (list : List (StringView κ)),
    netstringGenerator header comma list =
      (some ⟨header, 0, (netstringHeader (totalSize list)).length⟩ :: list ++ [some ⟨comma, 0, 1⟩],
        netstringHeader (totalSize list))
  /-- The replacement of `{}` in `fmt::format` by an integer. -/
  formatInteger : ℤ → Bytes
  formatInteger_natural : ∀ n : ℕ, formatInteger n = numeral n
  formatInteger_negative : ∀ n : ℕ, formatInteger (-(n + 1)) = ascii "-" ++ numeral (n + 1)
  /-- `Net::Log::Datagram::TruncateMessage(std::size_t)`. -/
  truncateMessage : ℕ → Bytes → Bytes

namespace Libcommon

def splitAt {κ : Type} (mem : κ → Bytes) (v : View κ) (c : UInt8) : View κ × Option (View κ) :=
  let pre := (v.contents mem).takeWhile (· ≠ c)
  if pre.length = (v.contents mem).length then (v, none)
  else (v.part 0 pre.length, some (v.dropFront (pre.length + 1)))

def readInteger (s : Bytes) : Option ℕ :=
  if s ≠ [] ∧ (∀ b ∈ s, IsDigit b) ∧ value s < sizeLimit then some (value s) else none

theorem takeWhile_before {c : UInt8} {pre : Bytes} (post : Bytes) (h : c ∉ pre) :
    (pre ++ c :: post).takeWhile (· ≠ c) = pre := by
  rw [List.takeWhile_append_of_pos]
  · simp
  · intro b hb
    simpa using fun eq : b = c => h (eq ▸ hb)

/-- Addresses of the shape `local@domain` without blanks stand for the check
of `uri/EmailAddress.hxx`, which is not part of the repository. -/
def reference : Libcommon where
  split := splitAt
  split_none mem v c _ h := by
    have all : (v.contents mem).takeWhile (· ≠ c) = v.contents mem := by
      rw [List.takeWhile_eq_self_iff]
      intro b hb
      simpa using fun eq : b = c => h (eq ▸ hb)
    simp only [splitAt, all, if_true]
  split_some mem v c pre post _ eq h := by
    have short : pre.length ≠ (pre ++ c :: post).length := by simp
    simp only [splitAt, eq, takeWhile_before post h, if_neg short]
  parseIntegerTo := readInteger
  parseIntegerTo_iff s n := by
    unfold readInteger
    split_ifs with h
    · constructor
      · intro eq
        cases eq
        exact ⟨h.1, h.2.1, rfl, h.2.2⟩
      · rintro ⟨-, -, rfl, -⟩
        rfl
    · constructor
      · intro eq
        cases eq
      · rintro ⟨h₁, h₂, rfl, h₃⟩
        exact absurd ⟨h₁, h₂, h₃⟩ h
  stripLeft mem v := v.dropFront ((v.contents mem).takeWhile isSpace).length
  stripLeft_eq _ _ _ := rfl
  verifyEmailAddress s := s.contains 64 && s.all fun b => 32 < b && b < 127
  netstringHeader n := numeral n ++ ascii ":"
  netstringHeader_eq _ _ := rfl
  netstringGenerator header comma list :=
    (some ⟨header, 0, (numeral (totalSize list) ++ ascii ":").length⟩ :: list ++
      [some ⟨comma, 0, 1⟩], numeral (totalSize list) ++ ascii ":")
  netstringGenerator_eq _ _ _ := rfl
  formatInteger n := if 0 ≤ n then numeral n.toNat else ascii "-" ++ numeral (-n).toNat
  formatInteger_natural n := by simp
  formatInteger_negative n := by
    have negative : ¬ 0 ≤ -((n : ℤ) + 1) := by omega
    have back : (- -((n : ℤ) + 1)).toNat = n + 1 := by omega
    rw [if_neg negative, back]
  truncateMessage := List.take

end Libcommon

end Qrelay
