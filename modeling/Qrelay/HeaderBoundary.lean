import Qrelay.HeaderBlock
import Qrelay.Lib.HeaderSection
import Qrelay.RawExecRelay

/-! Where the next server sees the header section end. The inserted lines go in
front of it, and removing white space in front of the message keeps the end of
the section unless nothing else stands before it. -/

namespace Qrelay
open Lib Lib.Decimal

/-- A message cut at its first empty line. -/
def splitMessage (x : Bytes) : Bytes × Bytes := HeaderSection.split 10 13 x

abbrev HeaderLine (l : Bytes) : Prop := HeaderSection.Line 10 13 l

theorem ValidHeader.line {header : Bytes × Bytes} (valid : ValidHeader header) :
    HeaderLine (MutableMail.headerLine header.1 header.2) := by
  obtain ⟨name, value⟩ := header
  obtain ⟨validName, validValue⟩ := valid
  have lfName := IncomingMail.not_mem_of_validName validName (b := 10) rfl
  have crName := IncomingMail.not_mem_of_validName validName (b := 13) rfl
  have lfValue := IncomingMail.not_mem_of_validValue validValue (b := 10) rfl
  cases name with
  | nil => cases validName
  | cons a t =>
    obtain ⟨notLf, inside⟩ := not_or.mp (mt List.mem_cons.mpr lfName)
    obtain ⟨notCr, -⟩ := not_or.mp (mt List.mem_cons.mpr crName)
    refine ⟨a, t ++ ascii ": " ++ value ++ [13], ?_, Ne.symm notLf, Ne.symm notCr, ?_⟩
    · have lineBreak : ascii "\r\n" = [13, 10] := rfl
      simp [MutableMail.headerLine, lineBreak]
    · have separator : 10 ∉ ascii ": " := by decide
      simp [inside, separator, lfValue]

section Received

variable {lib : Libcommon}

theorem lf_not_mem_numeral (n : ℕ) : 10 ∉ numeral n := by
  intro mem
  have digit := numeral_isDigit n 10 mem
  revert digit
  decide

theorem lf_not_mem_formatInteger (n : ℤ) : 10 ∉ lib.formatInteger n := by
  cases n with
  | ofNat n =>
    rw [Int.ofNat_eq_natCast, lib.formatInteger_natural]
    exact lf_not_mem_numeral n
  | negSucc n =>
    have negative : Int.negSucc n = -((n : ℤ) + 1) := rfl
    rw [negative, lib.formatInteger_negative, List.mem_append, not_or]
    exact ⟨by decide, lf_not_mem_numeral _⟩

theorem receivedLine_line (cred : PeerCred) : HeaderLine (receivedLine lib cred) := by
  have start : ascii "Received: from PID=" = 82 :: ascii "eceived: from PID=" := rfl
  have lineBreak : ascii " with QMQP\r\n" = ascii " with QMQP\r" ++ [10] := rfl
  refine ⟨82, ascii "eceived: from PID=" ++ lib.formatInteger cred.pid.toInt ++ ascii " UID=" ++
    lib.formatInteger cred.uid.toNat ++ ascii " with QMQP\r", ?_, by decide, by decide, ?_⟩
  · simp only [receivedLine, start, lineBreak, List.cons_append, List.append_assoc]
  · have first : 10 ∉ ascii "eceived: from PID=" := by decide
    have second : 10 ∉ ascii " UID=" := by decide
    have third : 10 ∉ ascii " with QMQP\r" := by decide
    simp only [List.mem_append, not_or]
    exact ⟨⟨⟨⟨first, lf_not_mem_formatInteger _⟩, second⟩, lf_not_mem_formatInteger _⟩, third⟩

end Received

def insertedLines (lib : Libcommon) (accepted : List MailCall) (peerAuth : SocketPeerAuth) :
    List Bytes :=
  MailCall.lines accepted ++ (peerAuth.map (receivedLine lib)).toList

theorem insertedLines_flatten (lib : Libcommon) (accepted : List MailCall)
    (peerAuth : SocketPeerAuth) : (insertedLines lib accepted peerAuth).flatten =
      (MailCall.lines accepted).flatten ++ receivedHeader lib peerAuth := by
  cases peerAuth <;> simp [insertedLines, receivedHeader]

theorem insertedLines_line {lib : Libcommon} {accepted : List MailCall}
    (valid : ∀ h ∈ MailCall.insertions accepted, ValidHeader h) (peerAuth : SocketPeerAuth) :
    ∀ l ∈ insertedLines lib accepted peerAuth, HeaderLine l := by
  intro l mem
  rcases List.mem_append.mp mem with mem | mem
  · rw [MailCall.lines_eq] at mem
    obtain ⟨header, among, rfl⟩ := List.mem_map.mp mem
    exact (valid header among).line
  · obtain ⟨cred, -, rfl⟩ : ∃ cred, peerAuth = some cred ∧ receivedLine lib cred = l := by
      simpa [eq_comm] using mem
    exact receivedLine_line cred

/-- What is handed downstream has the header section and the body of the
message, behind the inserted lines, and does not continue the last of them. -/
def Preserved (inserted message downstream : Bytes) : Prop :=
  splitMessage downstream =
      (inserted ++ (splitMessage message).1.dropWhile isSpace, (splitMessage message).2) ∧
    ∀ b ∈ (downstream.drop inserted.length).head?, b ≠ 32 ∧ b ≠ 9

/-- The header section is more than white space, or there is no body. -/
def Bounded (message : Bytes) : Prop :=
  (∃ b ∈ (splitMessage message).1, isSpace b = false) ∨ (splitMessage message).2 = []

theorem preserved_iff {lines : List Bytes} (h : ∀ l ∈ lines, HeaderLine l) (message : Bytes) :
    Preserved lines.flatten message (lines.flatten ++ message.dropWhile isSpace) ↔
      Bounded message := by
  have front := HeaderSection.split_lines h (message.dropWhile isSpace)
  have kept := @HeaderSection.split_dropWhile_iff UInt8 _ 10 13 isSpace rfl rfl message
  have start : ∀ b ∈ ((lines.flatten ++ message.dropWhile isSpace).drop
      lines.flatten.length).head?, b ≠ 32 ∧ b ≠ 9 := by
    intro b mem
    rw [List.drop_left] at mem
    have head := List.head?_dropWhile_not isSpace message
    rw [mem] at head
    constructor <;> rintro rfl <;> cases head
  rw [Preserved, and_iff_left start, Bounded, splitMessage, splitMessage, front, Prod.mk.injEq,
    List.append_cancel_left_eq, ← Prod.mk.injEq]
  exact kept

section Relays

variable {lib : Libcommon} {mail : MutableMail} {receivedBuffer : Bytes}

namespace RawExecRelay

def memory (mail : MutableMail) (receivedBuffer : Bytes) : Storage → Bytes
  | .receivedBuffer => receivedBuffer
  | k => mail.memory k

/-- The bytes for the standard input of the child. -/
def written (relay : RawExecRelay) (mail : MutableMail) (receivedBuffer : Bytes) : Bytes :=
  bytesOf (memory mail receivedBuffer) relay.requestBuffer.segments

theorem new_written (peerAuth : SocketPeerAuth) {m : Bytes}
    (message : FieldReads mail mail.message m) :
    (new mail (mail.headerViews ++ receivedView lib peerAuth)).written mail
        (receivedHeader lib peerAuth) =
      mail.headers.flatten ++ receivedHeader lib peerAuth ++ m := by
  have ext : Extends (memory mail (receivedHeader lib peerAuth)) mail := ⟨rfl, rfl, fun _ => rfl⟩
  rw [written, new_segments]
  exact (inner_reads lib peerAuth ext rfl message).1

end RawExecRelay

theorem BasicRelay.new_written (peerAuth : SocketPeerAuth) {m : Bytes}
    (message : FieldReads mail mail.message m) {wire : Buffer}
    (sent : wire.bytes = (BasicRelay.new lib mail
      (mail.headerViews ++ receivedView lib peerAuth)).written mail
        (receivedHeader lib peerAuth)) :
    ∃ rest, parseBuffer lib wire =
      .ok (some (mail.headers.flatten ++ receivedHeader lib peerAuth ++ m), rest) := by
  set headers := mail.headerViews ++ receivedView lib peerAuth
  set relay := BasicRelay.new lib mail headers with hrelay
  set mem := relay.memory mail (receivedHeader lib peerAuth)
  set first := lib.netstringGenerator Storage.generator .comma (headers ++ [mail.message])
    with hfirst
  have ext : Extends mem mail := relay.memory_extends
  obtain ⟨inner, exact⟩ := inner_reads lib peerAuth ext rfl message
  have firstText : mem .generator = first.2 := rfl
  have whole : wire.bytes = bytesOf mem first.1 ++ bytesOf mem
      [some ⟨.senderHeader, 0, relay.senderHeader.length⟩, mail.sender, mail.tail] :=
    sent.trans List.flatMap_append
  have innerSmall : (bytesOf mem (headers ++ [mail.message])).length < sizeLimit := by
    have le := bytesOf_le_generator lib mem Storage.generator .comma (headers ++ [mail.message])
    have small := wire.size_lt
    rw [whole, List.length_append] at small
    rw [← hfirst] at le
    omega
  have firstReads := bytesOf_generator exact innerSmall firstText rfl
  refine ⟨bytesOf mem [some ⟨.senderHeader, 0, relay.senderHeader.length⟩, mail.sender, mail.tail],
    parseBuffer_word (word_encode _) ?_⟩
  rw [whole, firstReads, inner]

end Relays

/-- Both kinds of relays hand down the same message, with the boundary where it
was exactly if the header section of the client's message is more than white
space or there is no body. -/
theorem header_boundary_iff (lib : Libcommon) {payload : Buffer} {mail : MutableMail}
    (parsed : (MutableMail.new payload).parse lib = .ok (.success, mail)) (calls : List MailCall)
    (peerAuth : SocketPeerAuth) :
    let edited := MailCall.script lib calls (IncomingMail.received lib mail)
    let message := mail.message.contents mail.memory
    ∃ headers receivedBuffer,
      assembleHeaders lib peerAuth edited.1.toMutableMail = .ok (headers, receivedBuffer) ∧
      let downstream := (RawExecRelay.new edited.1.toMutableMail headers).written
        edited.1.toMutableMail receivedBuffer
      (∀ wire : Buffer, wire.bytes = (BasicRelay.new lib edited.1.toMutableMail headers).written
          edited.1.toMutableMail receivedBuffer →
        ∃ rest, parseBuffer lib wire = .ok (some downstream, rest)) ∧
      (Preserved (insertedLines lib edited.2 peerAuth).flatten message downstream ↔
        Bounded message) := by
  intro edited message
  obtain ⟨fresh, m, s, rs, t, -, -, reads⟩ := parse_success parsed
  obtain ⟨vm, view, hm⟩ := reads.message
  have left : MailCall.Leaves edited.1.toMutableMail edited.2 m s (comma :: t) :=
    MailCall.script_leaves fresh reads calls
  have contents : message = m := by
    simp only [message, view, StringView.contents, hm.contents]
  refine ⟨_, _, assembleHeaders_eq peerAuth _, ?_⟩
  rw [RawExecRelay.new_written peerAuth left.message]
  refine ⟨fun wire sent => BasicRelay.new_written peerAuth left.message sent, ?_⟩
  rw [left.headers, ← insertedLines_flatten, contents]
  exact preserved_iff (insertedLines_line (MailCall.script_validHeaders calls _) peerAuth) m

/-- A message without a header section, and one line of a body. -/
def headlessPayload : Buffer where
  bytes := ascii "6:\nTo: x,3:a@b,3:c@d,"
  size_lt := by decide

def headlessMail : MutableMail where
  buffer := headlessPayload
  message := some ⟨.buffer, 2, 6⟩
  sender := some ⟨.buffer, 11, 3⟩
  recipients := [⟨.buffer, 17, 3⟩]
  tail := some ⟨.buffer, 14, 7⟩

def headlessDownstream : Bytes :=
  let mail := (IncomingMail.received .reference headlessMail).toMutableMail
  (RawExecRelay.new mail (mail.headerViews ++ receivedView .reference (some ⟨7, 8⟩))).written mail
    (receivedHeader .reference (some ⟨7, 8⟩))

set_option maxRecDepth 4000 in
/-- The body has become a header field of the relayed message. -/
theorem body_becomes_header :
    (MutableMail.new headlessPayload).parse .reference = .ok (.success, headlessMail) ∧
      splitMessage (headlessMail.message.contents headlessMail.memory) = ([], ascii "To: x") ∧
      splitMessage headlessDownstream =
        (receivedHeader .reference (some ⟨7, 8⟩) ++ ascii "To: x", []) ∧
      ¬ Preserved (insertedLines .reference [] (some ⟨7, 8⟩)).flatten
        (headlessMail.message.contents headlessMail.memory) headlessDownstream := by
  have body : splitMessage (headlessMail.message.contents headlessMail.memory) =
      ([], ascii "To: x") := rfl
  have downstream : splitMessage headlessDownstream =
      (receivedHeader .reference (some ⟨7, 8⟩) ++ ascii "To: x", []) := rfl
  refine ⟨rfl, body, downstream, fun preserved => ?_⟩
  have same := congrArg Prod.snd preserved.1
  rw [body, downstream] at same
  cases same

def framedPayload : Buffer where
  bytes := ascii "12: A: b\n\nbody\n,3:a@b,3:c@d,"
  size_lt := by decide

def framedMail : MutableMail where
  buffer := framedPayload
  message := some ⟨.buffer, 3, 12⟩
  sender := some ⟨.buffer, 18, 3⟩
  recipients := [⟨.buffer, 24, 3⟩]
  tail := some ⟨.buffer, 21, 7⟩

set_option maxRecDepth 4000 in
theorem header_boundary_iff_sample : ∃ downstream,
    Preserved (ascii "X: 1\r\n") (ascii " A: b\n\nbody\n") downstream ∧
      splitMessage downstream = (ascii "X: 1\r\nA: b\n", ascii "body\n") ∧
      Bounded (ascii " A: b\n\nbody\n") := by
  have parsed : (MutableMail.new framedPayload).parse .reference = .ok (.success, framedMail) := rfl
  obtain ⟨headers, receivedBuffer, -, -, iff⟩ :=
    header_boundary_iff .reference parsed sampleCalls none
  have bounded : Bounded (ascii " A: b\n\nbody\n") := .inl ⟨65, by decide, rfl⟩
  have preserved := iff.mpr bounded
  exact ⟨_, preserved, preserved.1, bounded⟩

end Qrelay
