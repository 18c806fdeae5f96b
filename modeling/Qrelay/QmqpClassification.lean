import Qrelay.QmqpGrammar

/-! What `QmqpMail::Parse` returns for every payload: success exactly on the
grammar, with the fields read off the payload, and otherwise the result of the
leftmost defect. -/

namespace Qrelay
open Lib Lib.Decimal Lib.PrefixCode
namespace QmqpMail

section General

variable {lib : Libcommon} {κ : Type} {mem : Memory κ}

theorem word_ne_nil (w x : Bytes) (hw : Word w x) : w ≠ [] := by
  have := Word.length_lt hw
  rintro rfl
  simp at this

theorem fromOneBefore_next {input : View κ} (h : input.Within mem.bytes) {w x r : Bytes}
    (hw : Word w x) (eq : input.contents mem.bytes = w ++ r) :
    ∃ v, fromOneBefore (input.dropFront w.length) = .ok v ∧
      ReadsAs mem.bytes input.storage v (comma :: r) := by
  obtain ⟨u, rfl⟩ := Word.ends_with_comma hw
  have length := h.length_contents
  rw [eq] at length
  simp only [List.length_append, List.length_cons, List.length_nil] at length
  have same : fromOneBefore (input.dropFront (u ++ [comma]).length) =
      .ok (input.part u.length (r.length + 1)) := by
    simp only [fromOneBefore, View.dropFront, View.part, List.length_append, List.length_cons,
      List.length_nil]
    rw [if_pos (by omega)]
    congr 2
    omega
  refine ⟨_, same, rfl, h.part (by omega), ?_⟩
  rw [View.contents_part (by omega), eq, List.append_assoc, List.drop_left]
  exact List.take_of_length_le (by simp)

theorem valueOf_readsAs {input : View κ} (h : input.Within mem.bytes) {w x r : Bytes}
    (hw : Word w x) (eq : input.contents mem.bytes = w ++ r) :
    ReadsAs mem.bytes input.storage (valueOf input w x) x := by
  refine ⟨rfl, h.part ?_, contents_value h hw eq⟩
  have length := h.length_contents
  have := Word.length_lt hw
  rw [eq, List.length_append] at length
  omega

variable (lib mem) in
/-- The loop stops at a point that gives its result. The induction is on the
fuel; every iteration that goes on takes a word off the input, so the fuel
lasts. -/
theorem parseRecipients_ends (fuel : ℕ) : ∀ (input : View κ) (mail : QmqpMail κ)
    (ys : List Bytes), input.Within mem.bytes → input.size < fuel → Sound lib ys →
    ys.length = 2 + mail.recipients.length →
    (1 ≤ mail.recipients.length → input.contents mem.bytes ≠ []) →
    ∃ result mail' rs rest, parseRecipients lib mem.bytes fuel input mail = .ok (result, mail') ∧
      Splits Word (input.contents mem.bytes) rs rest ∧ Ends lib Word result (ys ++ rs) rest ∧
      (result = .success → ∃ vs, mail' = { mail with recipients := mail.recipients ++ vs } ∧
        List.Forall₂ (ReadsAs mem.bytes input.storage) vs rs) := by
  induction fuel with
  | zero => intro input mail ys _ short; simp at short
  | succ fuel ih =>
    intro input mail ys h short sound count more
    by_cases stuck : Stuck Word (input.contents mem.bytes)
    · refine ⟨.malformed, mail, [], _, parseRecipients_stuck h stuck fuel, .nil _, ?_, by simp⟩
      rw [List.append_nil]
      exact ⟨sound, stuck, fun three => more (by omega)⟩
    obtain ⟨w, x, r, hw, eq⟩ := not_not.mp stuck
    have split : Splits Word (input.contents mem.bytes) [x] r := by
      rw [eq]
      exact .cons hw (.nil r)
    have iteration := parseRecipients_word lib mail h hw eq fuel
    by_cases valid : lib.verifyEmailAddress x = true
    · by_cases full : maxRecipients ≤ mail.recipients.length
      · refine ⟨.tooManyRecipients, mail, [x], r, ?_, split, ?_, by simp⟩
        · rw [iteration, if_neg (by simpa using valid), if_pos full]
        · exact ⟨ys, x, rfl, sound, by have := sound.2; omega, valid⟩
      rw [if_neg (by simpa using valid), if_neg full] at iteration
      have sound' := sound.snoc (by omega) valid (by omega)
      by_cases last : r = []
      · rw [if_pos last] at iteration
        refine ⟨.success, _, [x], r, iteration, split, ⟨sound', ?_, last⟩, fun _ => ?_⟩
        · rw [List.length_append, count, List.length_singleton]
          omega
        · exact ⟨[valueOf input w x], rfl, .cons (valueOf_readsAs h hw eq) .nil⟩
      · rw [if_neg last] at iteration
        have shorter : (input.dropFront w.length).size < fuel := by
          have length := h.length_contents
          have positive := Word.length_lt hw
          rw [eq, List.length_append] at length
          rw [size_next h eq]
          omega
        obtain ⟨result, mail', rs, rest, run, splits, ends, fields⟩ :=
          ih (input.dropFront w.length)
            { mail with recipients := mail.recipients ++ [valueOf input w x] } (ys ++ [x])
            (within_next h eq) shorter sound' (by simp; omega)
            (fun _ => by rwa [contents_next h eq])
        rw [contents_next h eq] at splits
        refine ⟨result, mail', x :: rs, rest, iteration.trans run, ?_, ?_, fun success => ?_⟩
        · rw [eq]
          exact .cons hw splits
        · simpa using ends
        · obtain ⟨vs, same, read⟩ := fields success
          exact ⟨valueOf input w x :: vs, by simpa using same,
            .cons (valueOf_readsAs h hw eq) read⟩
    · refine ⟨.badAddress, mail, [x], r, ?_, split, ⟨ys, x, rfl, sound, by omega, valid⟩, by simp⟩
      rw [iteration, if_pos (by simpa using valid)]

theorem sound_of_length_le_one {xs : List Bytes} (h : xs.length ≤ 1) : Sound lib xs := by
  refine ⟨?_, by omega⟩
  rw [List.drop_eq_nil_of_le h]
  simp

/-- The parser on any view: where it stops, with which result, and on success
what the fields of the mail read as. -/
theorem parse_ends {input : View κ} (h : input.Within mem.bytes) :
    ∃ result mail xs rest, parse lib mem.bytes input {} = .ok (result, mail) ∧
      Splits Word (input.contents mem.bytes) xs rest ∧ Ends lib Word result xs rest ∧
      (result = .success → ∃ m s rs wm ws tail, xs = m :: s :: rs ∧ Word wm m ∧ Word ws s ∧
        input.contents mem.bytes = wm ++ (ws ++ tail) ∧ Splits Word tail rs [] ∧
        Reads mem.bytes input.storage mail m s rs (comma :: tail)) := by
  by_cases stuck : Stuck Word (input.contents mem.bytes)
  · refine ⟨.malformed, {}, [], _, ?_, .nil _,
      ⟨sound_of_length_le_one (by simp), stuck, by simp⟩, by simp⟩
    rw [parse, parseNetstring_stuck h stuck]
    rfl
  obtain ⟨wm, m, r, hm, eq⟩ := not_not.mp stuck
  have h₁ := within_next h eq
  have eq₁ := contents_next h eq
  by_cases stuck₁ : Stuck Word r
  · refine ⟨.malformed, { message := some (valueOf input wm m) }, [m], r, ?_, ?_,
      ⟨sound_of_length_le_one (by simp), stuck₁, by simp⟩, by simp⟩
    · rw [parse, parseNetstring_word h hm eq]
      simp only [bind, Except.bind, pure, Except.pure, reduceCtorEq, if_false,
        parseNetstring_stuck h₁ (eq₁ ▸ stuck₁)]
    · rw [eq]
      exact .cons hm (.nil r)
  obtain ⟨ws, s, tail, hs, rfl⟩ := not_not.mp stuck₁
  have h₂ := within_next h₁ eq₁
  have eq₂ := contents_next h₁ eq₁
  obtain ⟨t, before, htail⟩ := fromOneBefore_next h₁ hs eq₁
  by_cases valid : lib.verifyEmailAddress s = true
  · have sound : Sound lib [m, s] := ⟨by simpa using valid, by simp [maxRecipients]⟩
    obtain ⟨result, mail, rs, rest, run, splits, ends, fields⟩ :=
      parseRecipients_ends lib mem
        (((input.dropFront wm.length).dropFront ws.length).size + 1) _
        ({ message := some (valueOf input wm m),
           sender := some (valueOf (input.dropFront wm.length) ws s), tail := some t } :
          QmqpMail κ) [m, s] h₂ (Nat.lt_succ_self _) sound rfl (by simp)
    rw [eq₂] at splits
    refine ⟨result, mail, m :: s :: rs, rest, ?_, ?_, ends, fun success => ?_⟩
    · rw [parse, parseNetstring_word h hm eq]
      simp only [bind, Except.bind, pure, Except.pure, reduceCtorEq, if_false,
        parseNetstring_word h₁ hs eq₁, contents_value h₁ hs eq₁, valid, not_true, before]
      exact run
    · rw [eq]
      exact .cons hm (.cons hs splits)
    · subst success
      obtain ⟨vs, rfl, read⟩ := fields rfl
      have empty := ends.2.2
      subst empty
      exact ⟨m, s, rs, wm, ws, tail, rfl, hm, hs, eq, splits, ⟨_, rfl, valueOf_readsAs h hm eq⟩,
        ⟨_, rfl, valueOf_readsAs h₁ hs eq₁⟩, read, t, rfl, htail⟩
  · refine ⟨.badAddress, { message := some (valueOf input wm m) }, [m, s], tail, ?_, ?_,
      ⟨[m], s, rfl, sound_of_length_le_one (by simp), by simp, valid⟩, by simp⟩
    · rw [parse, parseNetstring_word h hm eq]
      simp only [bind, Except.bind, pure, Except.pure, reduceCtorEq, if_false,
        parseNetstring_word h₁ hs eq₁, contents_value h₁ hs eq₁, valid, not_false_eq_true, if_true]
    · rw [eq]
      exact .cons hm (.cons hs (.nil tail))

end General

section Statements

variable (lib : Libcommon)

/-- A submission: message, sender and 1 to 1024 recipients, with valid addresses. -/
def Submission (P m s : Bytes) (rs : List Bytes) : Prop :=
  Splits (Netstring lib) P (m :: s :: rs) [] ∧ 1 ≤ rs.length ∧ rs.length ≤ maxRecipients ∧
    lib.verifyEmailAddress s ∧ ∀ r ∈ rs, lib.verifyEmailAddress r

/-- After flawless elements the next one is missing or no netstring, or
something follows the last recipient that is none. -/
def MalformedFirst (P : Bytes) : Prop :=
  ∃ xs rest, Splits (Netstring lib) P xs rest ∧ Sound lib xs ∧ Stuck (Netstring lib) rest ∧
    (3 ≤ xs.length → rest ≠ [])

/-- After flawless elements comes a well-formed sender or recipient that is
no address. -/
def BadAddressFirst (P : Bytes) : Prop :=
  ∃ xs x rest, Splits (Netstring lib) P (xs ++ [x]) rest ∧ Sound lib xs ∧ 1 ≤ xs.length ∧
    ¬ lib.verifyEmailAddress x

/-- The first 1025 recipients are well-formed and valid. -/
def RecipientsOverflow (P : Bytes) : Prop :=
  ∃ m s rs rest, Splits (Netstring lib) P (m :: s :: rs) rest ∧ rs.length = maxRecipients + 1 ∧
    lib.verifyEmailAddress s ∧ ∀ r ∈ rs, lib.verifyEmailAddress r

variable {lib}

theorem netstring_prefixFree : PrefixFree (Netstring lib) := fun _ _ _ _ _ _ h h' eq =>
  word_prefixFree (netstring_iff.mp h).1 (netstring_iff.mp h').1 eq

theorem ends_netstring {X : ParseResult} {xs : List Bytes} {rest : Bytes}
    (small : rest.length < sizeLimit) :
    Ends lib (Netstring lib) X xs rest ↔ Ends lib Word X xs rest := by
  cases X <;> simp only [Ends, stuck_netstring small]

theorem sound_iff {m s : Bytes} {rs : List Bytes} : Sound lib (m :: s :: rs) ↔
    rs.length ≤ maxRecipients ∧ lib.verifyEmailAddress s ∧ ∀ r ∈ rs, lib.verifyEmailAddress r := by
  simp only [Sound, List.drop_succ_cons, List.drop_zero, List.forall_mem_cons, List.length_cons]
  constructor
  · rintro ⟨valid, bound⟩
    exact ⟨by omega, valid⟩
  · rintro ⟨bound, valid⟩
    exact ⟨valid, by omega⟩

theorem submission_iff {P : Bytes} : (∃ m s rs, Submission lib P m s rs) ↔
    ∃ xs rest, Splits (Netstring lib) P xs rest ∧ Ends lib (Netstring lib) .success xs rest := by
  constructor
  · rintro ⟨m, s, rs, splits, one, bound, valid⟩
    exact ⟨_, [], splits, sound_iff.mpr ⟨bound, valid⟩, by simp; omega, rfl⟩
  · rintro ⟨xs, rest, splits, sound, three, rfl⟩
    match xs, three with
    | m :: s :: rs, three =>
      obtain ⟨bound, valid⟩ := sound_iff.mp sound
      exact ⟨m, s, rs, splits, by simp at three; omega, bound, valid⟩

theorem recipientsOverflow_iff {P : Bytes} : RecipientsOverflow lib P ↔
    ∃ xs rest, Splits (Netstring lib) P xs rest ∧
      Ends lib (Netstring lib) .tooManyRecipients xs rest := by
  constructor
  · rintro ⟨m, s, rs, rest, splits, count, valid, all⟩
    have nonempty : rs ≠ [] := by
      rintro rfl
      simp at count
    have last := List.dropLast_append_getLast nonempty
    refine ⟨_, rest, splits, m :: s :: rs.dropLast, rs.getLast nonempty, by simp [last],
      sound_iff.mpr ⟨by simp [count], valid, fun r hr => all r (List.mem_of_mem_dropLast hr)⟩,
      by simp [count]; omega, all _ (List.getLast_mem nonempty)⟩
  · rintro ⟨xs, rest, splits, ys, x, rfl, sound, count, valid⟩
    match ys, count with
    | m :: s :: rs, count =>
      obtain ⟨-, sender, all⟩ := sound_iff.mp sound
      refine ⟨m, s, rs ++ [x], rest, splits, by simp at count ⊢; omega, sender, fun r hr => ?_⟩
      rcases List.mem_append.mp hr with hr | hr
      · exact all r hr
      · rw [List.mem_singleton.mp hr]
        exact valid

theorem netstring_ne_nil {w x : Bytes} (hw : Netstring lib w x) : w ≠ [] :=
  word_ne_nil w x (netstring_iff.mp hw).1

/-- The parser on any view, in terms of the netstrings the view starts with. -/
theorem parse_decided {κ : Type} {mem : Memory κ} {input : View κ} (h : input.Within mem.bytes) :
    ∃ result mail, parse lib mem.bytes input {} = .ok (result, mail) ∧
      (∀ X, result = X ↔ ∃ xs rest, Splits (Netstring lib) (input.contents mem.bytes) xs rest ∧
        Ends lib (Netstring lib) X xs rest) ∧
      ∀ m s rs, Submission lib (input.contents mem.bytes) m s rs → ∃ wm ws tail,
        Netstring lib wm m ∧ Netstring lib ws s ∧
        input.contents mem.bytes = wm ++ (ws ++ tail) ∧ Splits (Netstring lib) tail rs [] ∧
        Reads mem.bytes input.storage mail m s rs (comma :: tail) := by
  obtain ⟨result, mail, xs, rest, run, splits, ends, fields⟩ := @parse_ends lib _ _ _ h
  have small : (input.contents mem.bytes).length < sizeLimit := by
    rw [h.length_contents]
    exact h.size_lt
  have splits' := (splits_netstring lib small).mpr splits
  have ends' := (ends_netstring (by have := splits.length_le; omega)).mpr ends
  have nonempty : ∀ w x, Netstring lib w x → w ≠ [] := fun _ _ => netstring_ne_nil
  have only : ∀ X, result = X ↔ ∃ zs t, Splits (Netstring lib) (input.contents mem.bytes) zs t ∧
      Ends lib (Netstring lib) X zs t := by
    intro X
    constructor
    · rintro rfl
      exact ⟨xs, rest, splits', ends'⟩
    · rintro ⟨zs, t, hz, ht⟩
      exact Ends.unique netstring_prefixFree nonempty splits' ends' hz ht
  refine ⟨result, mail, run, only, fun m s rs sub => ?_⟩
  have success := (only _).mpr (submission_iff.mp ⟨m, s, rs, sub⟩)
  obtain ⟨m', s', rs', wm, ws, tail, rfl, hm, hs, eq, htail, reads⟩ := fields success
  have done : rest = [] := (success ▸ ends).2.2
  subst done
  have same := splits'.unique_whole netstring_prefixFree nonempty sub.1
  obtain ⟨rfl, rfl, rfl⟩ : m' = m ∧ s' = s ∧ rs' = rs := by simpa using same
  have bounds := congrArg List.length eq
  simp only [List.length_append] at bounds
  exact ⟨wm, ws, tail, netstring_iff.mpr ⟨hm, by omega⟩, netstring_iff.mpr ⟨hs, by omega⟩, eq,
    (splits_netstring lib (by omega)).mpr htail, reads⟩

/-- `QmqpMail::Parse` on every payload, into a fresh mail. -/
theorem parse_classifies (lib : Libcommon) (P : Buffer) :
    ∃ result mail, parse lib P.memory.bytes P.view {} = .ok (result, mail) ∧
      (result = .success ↔ ∃ m s rs, Submission lib P.bytes m s rs) ∧
      (∀ m s rs, Submission lib P.bytes m s rs → ∃ head tail,
        Reads P.memory.bytes () mail m s rs (comma :: tail) ∧ P.bytes = head ++ comma :: tail ∧
        (∃ wm ws, Netstring lib wm m ∧ Netstring lib ws s ∧ head ++ [comma] = wm ++ ws) ∧
        Splits (Netstring lib) tail rs []) ∧
      (result = .malformed ↔ MalformedFirst lib P.bytes) ∧
      (result = .badAddress ↔ BadAddressFirst lib P.bytes) ∧
      (result = .tooManyRecipients ↔ RecipientsOverflow lib P.bytes) := by
  obtain ⟨result, mail, run, only, fields⟩ := @parse_decided lib _ _ _ P.within_view
  rw [P.contents_view] at only fields
  refine ⟨result, mail, run, (only _).trans submission_iff.symm, ?_, ?_, ?_,
    (only _).trans recipientsOverflow_iff.symm⟩
  · intro m s rs sub
    obtain ⟨wm, ws, tail, hm, hs, eq, htail, reads⟩ := fields m s rs sub
    obtain ⟨u, rfl⟩ := Word.ends_with_comma (netstring_iff.mp hs).1
    exact ⟨wm ++ u, tail, reads, by simpa using eq, ⟨wm, _, hm, hs, by simp⟩, htail⟩
  · rw [only]
    rfl
  · rw [only]
    constructor
    · rintro ⟨zs, t, hz, ys, x, rfl, h⟩
      exact ⟨ys, x, t, hz, h⟩
    · rintro ⟨ys, x, t, hz, h⟩
      exact ⟨_, t, hz, ys, x, rfl, h⟩

end Statements

end QmqpMail

end Qrelay
