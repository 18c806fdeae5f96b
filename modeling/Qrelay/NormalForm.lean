import Qrelay.Journey

/-! Payloads in the form in which servers send them: the lengths of the message
and of the sender are written without zeroes in front, and the message does not
begin with white space. Every server brings a payload into this form, and a
server that adds nothing leaves it alone then, byte for byte. -/

namespace Qrelay
open Lib Lib.Decimal Lib.PrefixCode QmqpMail

def Normal (payload : Bytes) : Prop :=
  ∃ m s t, payload = encode m ++ (encode s ++ t) ∧ m.dropWhile isSpace = m

variable {lib : Libcommon} {server : NetstringServer} {payload last : Buffer} {m s t : Bytes}
  {rs : List Bytes}

theorem QmqpMail.Reads.unique {mem : Storage → Bytes} {mail : QmqpMail Storage} {m' s' t' : Bytes}
    {rs' : List Bytes} (h : Reads mem .buffer mail m s rs t)
    (h' : Reads mem .buffer mail m' s' rs' t') : m = m' ∧ s = s' ∧ rs = rs' ∧ t = t' := by
  obtain ⟨⟨vm, message, hm⟩, ⟨vs, sender, hs⟩, recipients, ⟨vt, tail, ht⟩⟩ := h
  obtain ⟨⟨vm', message', hm'⟩, ⟨vs', sender', hs'⟩, recipients', ⟨vt', tail', ht'⟩⟩ := h'
  obtain rfl : vm = vm' := Option.some.inj (message.symm.trans message')
  obtain rfl : vs = vs' := Option.some.inj (sender.symm.trans sender')
  obtain rfl : vt = vt' := Option.some.inj (tail.symm.trans tail')
  refine ⟨hm.contents.symm.trans hm'.contents, hs.contents.symm.trans hs'.contents, ?_,
    ht.contents.symm.trans ht'.contents⟩
  rw [← ReadsAs.map_contents recipients, ReadsAs.map_contents recipients']

theorem Carries.words (h : Carries lib payload m s rs t) : ∃ wm ws t',
    Word wm m ∧ Word ws s ∧ t = comma :: t' ∧ payload.bytes = wm ++ (ws ++ t') := by
  obtain ⟨mail, parsed, reads⟩ := h
  obtain ⟨-, m', s', rs', -, sub, -, -⟩ := parse_success parsed
  obtain ⟨result, fields, run, -, shape⟩ := @parse_decided lib Storage (freshMemory payload) _
    (View.within_whole _)
  have bytes : (freshMemory payload).bytes .buffer = payload.bytes := rfl
  rw [View.contents_whole, bytes] at shape
  obtain ⟨wm, ws, t', hm, hs, eq, -, reads'⟩ := shape m' s' rs' sub
  have run' : QmqpMail.parse lib (MutableMail.new payload).memory
      (View.whole (MutableMail.new payload).memory .buffer) (MutableMail.new payload).toQmqpMail =
        .ok (result, fields) := run
  simp only [MutableMail.parse, bind, Except.bind, run'] at parsed
  cases parsed
  obtain ⟨rfl, rfl, -, rfl⟩ := reads.unique reads'
  exact ⟨wm, ws, t', (netstring_iff.mp hm).1, (netstring_iff.mp hs).1, rfl, eq⟩

theorem words_unique {wm ws wm' ws' m' s' t' : Bytes} (hm : Word wm m) (hs : Word ws s)
    (hm' : Word wm' m') (hs' : Word ws' s') (eq : wm ++ (ws ++ t) = wm' ++ (ws' ++ t')) :
    m = m' ∧ s = s' ∧ t = t' := by
  obtain ⟨same, rest⟩ := word_prefixFree hm hm' eq
  exact ⟨same, word_prefixFree hs hs' rest⟩

theorem Written.normal (h : Written payload m s (comma :: t)) :
    payload.bytes = encode m ++ (encode s ++ t) := by
  rw [h]
  simp [encode]

theorem Hop.pass_parsed {hop : Hop} {value : Buffer}
    (passed : hop.pass lib server payload = .ok value) :
    ∃ mail, (MutableMail.new payload).parse lib = .ok (.success, mail) := by
  unfold Hop.pass Hop.sends at passed
  split at passed
  · cases passed
  · exact ⟨_, by assumption⟩
  · cases passed

theorem journey_parsed {hops : List Hop} (away : hops ≠ [])
    (arrived : journey lib server hops payload = .ok last) :
    ∃ mail, (MutableMail.new payload).parse lib = .ok (.success, mail) := by
  cases hops with
  | nil => exact absurd rfl away
  | cons hop hops =>
    rw [journey] at arrived
    cases passed : hop.pass lib server payload with
    | error lost =>
      rw [passed] at arrived
      cases arrived
    | ok value => exact Hop.pass_parsed passed

theorem inserted_flatten {hops : List Hop} : (hops.reverse.map (Hop.inserted lib)).flatten = [] ↔
    ∀ hop ∈ hops, hop.inserted lib = [] := by
  simp [List.flatten_eq_nil_iff]

/-- Whatever a server sends is normal. On its way over some servers, a payload
stays what it is if and only if it has been normal, no server has put a line in
front of the message, and the last new sender, if there is one, is the old one. -/
theorem journey_unchanged_iff (lib : Libcommon) (server : NetstringServer) {hops : List Hop}
    (away : hops ≠ []) {payload last : Buffer}
    (arrived : journey lib server hops payload = .ok last) :
    ∃ mail, (MutableMail.new payload).parse lib = .ok (.success, mail) ∧
      let sender := (Letter.of mail none).sender
      Normal last.bytes ∧ (last = payload ↔ Normal payload.bytes ∧
        (∀ hop ∈ hops, hop.inserted lib = []) ∧
        (hops.flatMap fun hop => Letter.validSenders lib hop.calls).getLast?.getD sender =
          sender) := by
  obtain ⟨mail, parsed⟩ := journey_parsed away arrived
  refine ⟨mail, parsed, ?_⟩
  obtain ⟨-, m, s, rs, t, -, -, reads⟩ := parse_success parsed
  have carries : Carries lib payload m s rs (comma :: t) := ⟨mail, parsed, reads⟩
  have sender : (Letter.of mail none).sender = s := by rw [Letter.of_reads reads]
  rw [sender]
  obtain ⟨-, -, -, -, -, -, -, -, -, lost⟩ | ⟨last', m', arrived', -, message, normal, -⟩ :=
    @journey_carries lib server hops _ _ _ _ _ carries
  · rw [lost] at arrived
    cases arrived
  rw [arrived] at arrived'
  cases arrived'
  obtain ⟨written, stripped⟩ := normal (.inl away)
  rw [stripped] at message
  have sent := written.normal
  set s' := (hops.flatMap fun hop => Letter.validSenders lib hop.calls).getLast?.getD s
  obtain ⟨wm, ws, t', hm, hs, tail, words⟩ := carries.words
  obtain rfl : t = t' := List.cons.inj tail |>.2
  refine ⟨⟨m', s', t, sent, stripped⟩, fun unchanged => ?_, fun ⟨normal, nothing, same⟩ => ?_⟩
  · -- the words of the payload are those that the last server has written
    have both : wm ++ (ws ++ t) = encode m' ++ (encode s' ++ t) := by
      rw [← words, ← unchanged, sent]
    obtain ⟨rfl, old, -⟩ := words_unique hm hs (word_encode m') (word_encode s') both
    refine ⟨⟨m, s', t, unchanged ▸ sent, stripped⟩, ?_, old.symm⟩
    rw [stripped] at message
    exact inserted_flatten.mp (List.append_left_eq_self.mp message.symm)
  · obtain ⟨n, r, u, eq, front⟩ := normal
    have both : wm ++ (ws ++ t) = encode n ++ (encode r ++ u) := by rw [← words, eq]
    obtain ⟨rfl, rfl, rfl⟩ := words_unique hm hs (word_encode n) (word_encode r) both
    rw [inserted_flatten.mpr nothing, List.nil_append, front] at message
    have old : s' = s := same
    have bytes : last.bytes = payload.bytes := by rw [sent, eq, message, old]
    cases last
    cases payload
    cases bytes
    rfl

set_option maxRecDepth 4000 in
theorem journey_unchanged_sample : Normal arrivedPayload.bytes := by
  have arrives : journey .reference .reference [⟨[], none, 1024, by decide⟩] arrivedPayload =
    .ok arrivedPayload := rfl
  obtain ⟨mail, -, -, unchanged⟩ := journey_unchanged_iff .reference .reference (by simp) arrives
  exact (unchanged.mp rfl).1

end Qrelay
