import Qrelay.QmqpMail

/-! The language of `QmqpMail::Parse` and its classification of failures. A
payload splits into elements up to the point where the parser stops; `Ends`
says which result that point gives, and at most one point gives a result. -/

namespace Qrelay
open Lib Lib.Decimal Lib.PrefixCode
namespace QmqpMail

variable (lib : Libcommon)

/-- `w` is consumed completely by `ParseNetstring`, which returns `x`. -/
def Netstring (w x : Bytes) : Prop :=
  ∃ b : Buffer, b.bytes = w ∧ parseBuffer lib b = .ok (some x, [])

/-- No element is defective: the sender and the recipients are addresses, and
the recipients are within the limit. -/
def Sound (xs : List Bytes) : Prop :=
  (∀ x ∈ xs.drop 1, lib.verifyEmailAddress x = true) ∧ xs.length ≤ 2 + maxRecipients

/-- The result of a parser that has taken the elements `xs` and stops before `rest`. -/
def Ends (W : Bytes → Bytes → Prop) : ParseResult → List Bytes → Bytes → Prop
  | .success, xs, rest => Sound lib xs ∧ 3 ≤ xs.length ∧ rest = []
  | .malformed, xs, rest => Sound lib xs ∧ Stuck W rest ∧ (3 ≤ xs.length → rest ≠ [])
  | .badAddress, xs, _ => ∃ ys x, xs = ys ++ [x] ∧ Sound lib ys ∧ 1 ≤ ys.length ∧
      ¬ lib.verifyEmailAddress x
  | .tooManyRecipients, xs, _ => ∃ ys x, xs = ys ++ [x] ∧ Sound lib ys ∧
      ys.length = 2 + maxRecipients ∧ lib.verifyEmailAddress x

structure ReadsAs {κ : Type} (mem : κ → Bytes) (k : κ) (v : View κ) (x : Bytes) : Prop where
  storage : v.storage = k
  within : v.Within mem
  contents : v.contents mem = x

/-- The mail's views read as the given byte strings. -/
structure Reads {κ : Type} (mem : κ → Bytes) (k : κ) (mail : QmqpMail κ) (m s : Bytes)
    (rs : List Bytes) (t : Bytes) : Prop where
  message : ∃ v, mail.message = some v ∧ ReadsAs mem k v m
  sender : ∃ v, mail.sender = some v ∧ ReadsAs mem k v s
  recipients : List.Forall₂ (ReadsAs mem k) mail.recipients rs
  tail : ∃ v, mail.tail = some v ∧ ReadsAs mem k v t

variable {lib}

theorem netstring_iff {w x : Bytes} :
    Netstring lib w x ↔ Word w x ∧ w.length < sizeLimit := by
  constructor
  · rintro ⟨b, rfl, run⟩
    by_cases stuck : Stuck Word b.bytes
    · rw [parseBuffer_stuck stuck] at run
      cases run
    · obtain ⟨w, x', r, hw, eq⟩ := not_not.mp stuck
      rw [parseBuffer_word hw eq] at run
      cases run
      rw [List.append_nil] at eq
      rw [eq]
      exact ⟨hw, eq ▸ b.size_lt⟩
  · rintro ⟨hw, small⟩
    exact ⟨⟨w, small⟩, rfl, parseBuffer_word hw (List.append_nil w).symm⟩

variable (lib) in
theorem splits_netstring {s r : Bytes} {xs : List Bytes} (small : s.length < sizeLimit) :
    Splits (Netstring lib) s xs r ↔ Splits Word s xs r := by
  constructor
  · intro h
    induction h with
    | nil s => exact .nil s
    | cons hw _ ih =>
      rw [List.length_append] at small
      exact .cons (netstring_iff.mp hw).1 (ih (by omega))
  · intro h
    induction h with
    | nil s => exact .nil s
    | cons hw _ ih =>
      rw [List.length_append] at small
      exact .cons (netstring_iff.mpr ⟨hw, by omega⟩) (ih (by omega))

theorem stuck_netstring {s : Bytes} (small : s.length < sizeLimit) :
    Stuck (Netstring lib) s ↔ Stuck Word s := by
  apply not_congr
  constructor
  · rintro ⟨w, x, r, hw, eq⟩
    exact ⟨w, x, r, (netstring_iff.mp hw).1, eq⟩
  · rintro ⟨w, x, r, hw, rfl⟩
    rw [List.length_append] at small
    exact ⟨w, x, r, netstring_iff.mpr ⟨hw, by omega⟩, rfl⟩

theorem Sound.of_append {xs ys : List Bytes} (h : Sound lib (xs ++ ys)) : Sound lib xs := by
  obtain ⟨valid, bound⟩ := h
  rw [List.length_append] at bound
  refine ⟨fun x hx => valid x ?_, by omega⟩
  rw [List.drop_append]
  exact List.mem_append_left _ hx

theorem Sound.snoc {xs : List Bytes} {x : Bytes} (h : Sound lib xs) (one : 1 ≤ xs.length)
    (valid : lib.verifyEmailAddress x) (room : xs.length < 2 + maxRecipients) :
    Sound lib (xs ++ [x]) := by
  refine ⟨?_, by simp; omega⟩
  rw [List.drop_append_of_le_length one]
  intro y hy
  rcases List.mem_append.mp hy with hy | hy
  · exact h.1 y hy
  · rw [List.mem_singleton.mp hy]
    exact valid

theorem Ends.sound_dropLast {W : Bytes → Bytes → Prop} {result : ParseResult}
    {xs : List Bytes} {rest : Bytes} (h : Ends lib W result xs rest) :
    Sound lib xs.dropLast := by
  cases result with
  | success =>
    rw [List.dropLast_eq_take]
    exact Sound.of_append (by rw [List.take_append_drop]; exact h.1)
  | malformed =>
    rw [List.dropLast_eq_take]
    exact Sound.of_append (by rw [List.take_append_drop]; exact h.1)
  | badAddress =>
    obtain ⟨ys, x, rfl, sound, -⟩ := h
    rwa [List.dropLast_concat]
  | tooManyRecipients =>
    obtain ⟨ys, x, rfl, sound, -⟩ := h
    rwa [List.dropLast_concat]

theorem Ends.not_sound {W : Bytes → Bytes → Prop} {xs : List Bytes} {rest : Bytes}
    (h : Ends lib W .badAddress xs rest ∨ Ends lib W .tooManyRecipients xs rest) :
    ¬ Sound lib xs := by
  rintro ⟨valid, bound⟩
  rcases h with ⟨ys, x, rfl, -, one, bad⟩ | ⟨ys, x, rfl, -, full, -⟩
  · apply bad
    apply valid
    rw [List.drop_append_of_le_length one]
    simp
  · rw [List.length_append, full] at bound
    simp at bound

theorem Ends.not_resumed {W : Bytes → Bytes → Prop} (nonempty : ∀ w x, W w x → w ≠ [])
    {X Y : ParseResult} {xs zs : List Bytes} {x : Bytes} {r t : Bytes}
    (h : Ends lib W X xs r) (h' : Ends lib W Y (xs ++ x :: zs) t)
    (more : Splits W r (x :: zs) t) : False := by
  obtain ⟨w, s, hw, rfl, -⟩ := splits_cons_iff.mp more
  have sound : Sound lib xs := by
    have all := h'.sound_dropLast
    rw [List.dropLast_append_cons] at all
    exact all.of_append
  cases X with
  | success =>
    obtain ⟨-, -, empty⟩ := h
    exact nonempty w x hw (List.append_eq_nil_iff.mp empty).1
  | malformed => exact h.2.1 ⟨w, x, s, hw, rfl⟩
  | badAddress => exact Ends.not_sound (.inl h) sound
  | tooManyRecipients => exact Ends.not_sound (.inr h) sound

theorem Ends.same_point {W : Bytes → Bytes → Prop} {X Y : ParseResult} {xs : List Bytes}
    {r : Bytes} (h : Ends lib W X xs r) (h' : Ends lib W Y xs r) : X = Y := by
  cases X <;> cases Y <;> try rfl
  case success.malformed => exact absurd h.2.2 (h'.2.2 h.2.1)
  case malformed.success => exact absurd h'.2.2 (h.2.2 h'.2.1)
  case badAddress.tooManyRecipients =>
    obtain ⟨ys, x, rfl, -, -, bad⟩ := h
    obtain ⟨zs, z, eq, -, -, valid⟩ := h'
    rw [(List.append_inj' eq rfl).2 |> List.singleton_inj.mp] at bad
    exact absurd valid bad
  case tooManyRecipients.badAddress =>
    obtain ⟨ys, x, rfl, -, -, valid⟩ := h
    obtain ⟨zs, z, eq, -, -, bad⟩ := h'
    rw [← (List.append_inj' eq rfl).2 |> List.singleton_inj.mp] at bad
    exact absurd valid bad
  all_goals first
    | exact absurd h.1 (Ends.not_sound (.inl h'))
    | exact absurd h.1 (Ends.not_sound (.inr h'))
    | exact absurd h'.1 (Ends.not_sound (.inl h))
    | exact absurd h'.1 (Ends.not_sound (.inr h))

theorem Ends.unique {W : Bytes → Bytes → Prop} (free : PrefixFree W)
    (nonempty : ∀ w x, W w x → w ≠ []) {P : Bytes} {X Y : ParseResult} {xs zs : List Bytes}
    {r t : Bytes} (hs : Splits W P xs r) (h : Ends lib W X xs r)
    (hs' : Splits W P zs t) (h' : Ends lib W Y zs t) : X = Y := by
  rcases Nat.le_total xs.length zs.length with le | le
  · obtain ⟨ds, rfl, more⟩ := hs.resume free hs' le
    cases ds with
    | nil =>
      rw [List.append_nil] at h'
      rw [← splits_nil_iff.mp more] at h'
      exact h.same_point h'
    | cons d ds => exact (h.not_resumed nonempty h' more).elim
  · obtain ⟨ds, rfl, more⟩ := hs'.resume free hs le
    cases ds with
    | nil =>
      rw [List.append_nil] at h
      rw [← splits_nil_iff.mp more] at h
      exact h.same_point h'
    | cons d ds => exact (h'.not_resumed nonempty h more).elim

end QmqpMail

end Qrelay
