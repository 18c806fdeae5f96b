import Qrelay.Lib.Separator
import Qrelay.RelayRoundTrip

/-! The headers that Lua code inserts. Their block is read back as the list of
accepted insertions, since no name has a colon and no name or value has a line
break. -/

namespace Qrelay
open Lib Lib.Decimal Lib.Separator

namespace IncomingMail

/-- `IsValidHeaderNameChar` where `char` is signed. -/
def isValidHeaderNameSignedChar (ch : Int8) : Bool := 33 ≤ ch && ch ≤ 126 && ch ≠ 58

def isValidHeaderValueSignedChar (ch : Int8) : Bool := 32 ≤ ch && ch ≤ 126

/-- The signedness of `char` makes no difference. -/
theorem signedChar_eq (ch : UInt8) :
    isValidHeaderNameSignedChar ch.toInt8 = isValidHeaderNameChar ch ∧
      isValidHeaderValueSignedChar ch.toInt8 = isValidHeaderValueChar ch := by
  obtain ⟨⟨n⟩⟩ := ch
  revert n
  decide +kernel

theorem not_mem_of_validName {name : Bytes} (valid : isValidHeaderName name) {b : UInt8}
    (bad : isValidHeaderNameChar b = false) : b ∉ name := by
  intro mem
  have all := (Bool.and_eq_true_iff.mp valid).2
  rw [List.all_eq_true.mp all b mem] at bad
  cases bad

theorem not_mem_of_validValue {value : Bytes} (valid : isValidHeaderValue value) {b : UInt8}
    (bad : isValidHeaderValueChar b = false) : b ∉ value := by
  intro mem
  rw [List.all_eq_true.mp valid b mem] at bad
  cases bad

end IncomingMail

def headerText (header : Bytes × Bytes) : Bytes := header.1 ++ ascii ": " ++ header.2

/-- The block cut at every CRLF, and each of its lines at the first `: `. -/
def Decodes (block : Bytes) (headers : List (Bytes × Bytes)) : Prop :=
  ∃ lines, pieces (ascii "\r\n") 0 block = lines ++ [[]] ∧
    lines.map (cut (ascii ": ")) = headers.map some

theorem Decodes.unique {block : Bytes} {headers headers' : List (Bytes × Bytes)}
    (h : Decodes block headers) (h' : Decodes block headers') : headers = headers' := by
  obtain ⟨lines, cuts, parts⟩ := h
  obtain ⟨lines', cuts', parts'⟩ := h'
  have same : lines = lines' := List.append_cancel_right (cuts.symm.trans cuts')
  rw [← same, parts] at parts'
  exact List.map_injective_iff.mpr (Option.some_injective _) parts'

def ValidHeader (header : Bytes × Bytes) : Prop :=
  IncomingMail.isValidHeaderName header.1 ∧ IncomingMail.isValidHeaderValue header.2

theorem ValidHeader.cr_not_mem {header : Bytes × Bytes} (valid : ValidHeader header) :
    13 ∉ headerText header := by
  simp only [headerText, List.mem_append, not_or]
  exact ⟨⟨IncomingMail.not_mem_of_validName valid.1 rfl, by decide⟩,
    IncomingMail.not_mem_of_validValue valid.2 rfl⟩

theorem ValidHeader.cut_text {header : Bytes × Bytes} (valid : ValidHeader header) :
    cut (ascii ": ") (headerText header) = some header := by
  have separator : ascii ": " = [58, 32] := rfl
  have text : headerText header = header.1 ++ (58 :: ([32] ++ header.2)) := by
    simp [headerText, separator]
  rw [text, separator, cut_append (IncomingMail.not_mem_of_validName valid.1 rfl)]

theorem decodes_lines {headers : List (Bytes × Bytes)} (valid : ∀ h ∈ headers, ValidHeader h) :
    Decodes (headers.map fun h => MutableMail.headerLine h.1 h.2).flatten headers := by
  have lineBreak : ascii "\r\n" = [13, 10] := rfl
  have ended : (headers.map fun h => MutableMail.headerLine h.1 h.2).flatten =
      (headers.map headerText).flatMap (· ++ [13, 10]) := by
    rw [List.flatMap_def, List.map_map]
    rfl
  refine ⟨headers.map headerText, ?_, ?_⟩
  · rw [ended, lineBreak]
    apply pieces_ended
    intro line among
    obtain ⟨header, mem, rfl⟩ := List.mem_map.mp among
    exact (valid header mem).cr_not_mem
  · rw [List.map_map]
    exact List.map_congr_left fun header mem => (valid header mem).cut_text

namespace MailCall

def header : MailCall → Option (Bytes × Bytes)
  | insertHeader [name, value] => do return (← name.text, ← value.text)
  | _ => none

/-- The headers of accepted calls, newest first. -/
def insertions (accepted : List MailCall) : List (Bytes × Bytes) :=
  (accepted.filterMap header).reverse

theorem line_eq (call : MailCall) :
    call.line = call.header.map fun h => MutableMail.headerLine h.1 h.2 := by
  unfold line
  split
  · rename_i name value
    cases hn : name.text <;> cases hv : value.text <;> simp [header, hn, hv]
  · rename_i other
    rw [header]
    · rfl
    · exact other

theorem lines_eq (accepted : List MailCall) :
    lines accepted = (insertions accepted).map fun h => MutableMail.headerLine h.1 h.2 := by
  have same : line = fun call => call.header.map fun h => MutableMail.headerLine h.1 h.2 :=
    funext line_eq
  rw [lines, insertions, List.map_reverse, List.map_filterMap, same]

variable {lib : Libcommon}

theorem Edit.validHeader {mail mail' : IncomingMail} {call : MailCall}
    (edit : Edit lib mail call mail') {h : Bytes × Bytes} (eq : call.header = some h) :
    ValidHeader h := by
  cases edit with
  | header hn hv validName validValue =>
    simp only [MailCall.header, hn, hv, Option.bind_eq_bind, Option.bind_some, Option.pure_def,
      Option.some.injEq] at eq
    rw [← eq]
    exact ⟨validName, validValue⟩
  | sender => cases eq
  | account => cases eq

theorem script_validHeaders (calls : List MailCall) (mail : IncomingMail) :
    ∀ h ∈ insertions (script lib calls mail).2, ValidHeader h := by
  simp only [insertions, List.mem_reverse, List.mem_filterMap]
  induction calls generalizing mail with
  | nil => simp [script]
  | cons call calls ih =>
    rcases @outcome lib mail call with ⟨e, rejected⟩ | ⟨mail', accepted, edit⟩
    · simp only [script, rejected]
      exact ih mail
    · simp only [script, accepted, List.mem_cons]
      rintro h ⟨c, rfl | mem, eq⟩
      · exact edit.validHeader eq
      · exact ih mail' h ⟨c, mem, eq⟩

theorem rejected_unchanged {mail mail' : IncomingMail} {call : MailCall} {e : LuaError}
    (h : call.code lib mail = .error e mail') : mail' = mail := by
  rcases @outcome lib mail call with ⟨e', rejected⟩ | ⟨mail', accepted, -⟩
  · rw [rejected] at h
    cases h
    rfl
  · rw [accepted] at h
    cases h

end MailCall

def IncomingMail.received (lib : Libcommon) (mail : MutableMail) : IncomingMail :=
  { toMutableMail := mail.stripMessage lib }

/-- The bytes of the part of the header list that `AssembleHeaders` makes of `mail.headers`. -/
def MutableMail.headerBlock (mail : MutableMail) : Bytes := bytesOf mail.memory mail.headerViews

/-- Whatever was inserted, the header block decodes to the accepted headers. -/
theorem headers_unforgeable (lib : Libcommon) {payload : Buffer} {mail : MutableMail}
    (parsed : (MutableMail.new payload).parse lib = .ok (.success, mail)) (calls : List MailCall) :
    let edited := MailCall.script lib calls (IncomingMail.received lib mail)
    (∀ (call : MailCall) (e : LuaError) (mail' : IncomingMail),
      call.code lib edited.1 = .error e mail' → mail' = edited.1) ∧
    (∀ peerAuth, assembleHeaders lib peerAuth edited.1.toMutableMail =
      .ok (edited.1.headerViews ++ receivedView lib peerAuth, receivedHeader lib peerAuth)) ∧
    Decodes edited.1.headerBlock (MailCall.insertions edited.2) ∧
    lib.verifyEmailAddress (edited.1.sender.contents edited.1.memory) ∧
    (∀ calls' : List MailCall,
      let other := MailCall.script lib calls' (IncomingMail.received lib mail)
      other.1.headerBlock = edited.1.headerBlock →
        MailCall.insertions other.2 = MailCall.insertions edited.2) ∧
    ∀ ch : UInt8,
      IncomingMail.isValidHeaderNameSignedChar ch.toInt8 = IncomingMail.isValidHeaderNameChar ch ∧
      IncomingMail.isValidHeaderValueSignedChar ch.toInt8 =
        IncomingMail.isValidHeaderValueChar ch := by
  intro edited
  obtain ⟨fresh, m, s, rs, t, sub, -, reads⟩ := parse_success parsed
  have left (calls' : List MailCall) :
      let other := MailCall.script lib calls' (IncomingMail.received lib mail)
      MailCall.Leaves other.1.toMutableMail other.2 m s (comma :: t) :=
    MailCall.script_leaves fresh reads calls'
  have block (calls' : List MailCall) :
      let other := MailCall.script lib calls' (IncomingMail.received lib mail)
      Decodes other.1.headerBlock (MailCall.insertions other.2) := by
    intro other
    rw [MutableMail.headerBlock, headerViews_bytes _ fun _ => rfl, (left calls').headers,
      MailCall.lines_eq]
    exact decodes_lines (MailCall.script_validHeaders calls' _)
  have edit : MailCall.Edited lib (IncomingMail.received lib mail) edited.2 edited.1 :=
    MailCall.script_edited calls _
  refine ⟨fun _ _ _ => MailCall.rejected_unchanged, fun peerAuth => assembleHeaders_eq peerAuth _,
    block calls, ?_, ?_, IncomingMail.signedChar_eq⟩
  · obtain ⟨v, eq, -, -, contents⟩ := (left calls).sender
    rw [eq, StringView.contents, contents]
    exact edit.senderValid s sub.2.2.2.1
  · intro calls' other same
    have decodes : Decodes other.1.headerBlock (MailCall.insertions other.2) := block calls'
    rw [same] at decodes
    exact decodes.unique (block calls)

def forgery : List MailCall :=
  [.insertHeader [.string (ascii "X"), .string (ascii "1")],
    .insertHeader [.string (ascii "Y"), .string (ascii "a: b")],
    .insertHeader [.string (ascii "Z"), .string (ascii "c\r\nW: d")]]

def forged : IncomingMail :=
  (MailCall.script .reference forgery (IncomingMail.received .reference sampleMail)).1

set_option maxRecDepth 4000 in
theorem headers_unforgeable_forgery : forged.headerBlock = ascii "Y: a: b\r\nX: 1\r\n" ∧
    Decodes forged.headerBlock [(ascii "Y", ascii "a: b"), (ascii "X", ascii "1")] := by
  have parsed : (MutableMail.new samplePayload).parse .reference = .ok (.success, sampleMail) := rfl
  exact ⟨rfl, (headers_unforgeable .reference parsed forgery).2.2.1⟩

end Qrelay
