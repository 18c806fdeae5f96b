import Qrelay.Request

/-! A relayed mail decodes to the edited mail: the bytes sent downstream are
one netstring, and its value is a submission with the inserted lines in front
of the message, the last accepted sender, and the same recipients. -/

namespace Qrelay
open Lib Lib.Decimal Lib.PrefixCode QmqpMail

section Segments

variable {lib : Libcommon} {κ : Type} {mem : κ → Bytes}

/-- The size of a segment is the number of bytes it reads. -/
def Exact (mem : κ → Bytes) (s : StringView κ) : Prop := s.size = (s.contents mem).length

theorem exact_of_within {v : View κ} (h : v.Within mem) : Exact mem (some v) :=
  h.length_contents.symm

theorem exact_whole {k : κ} {n : ℕ} (h : (mem k).length = n) : Exact mem (some ⟨k, 0, n⟩) :=
  exact_of_within (by simp [View.Within, h])

theorem contents_whole_view {k : κ} {n : ℕ} (h : (mem k).length = n) :
    StringView.contents mem (some ⟨k, 0, n⟩) = mem k := by
  simp [StringView.contents, View.contents, ← h]

abbrev bytesOf (mem : κ → Bytes) (list : List (StringView κ)) : Bytes :=
  list.flatMap (StringView.contents mem)

theorem totalSize_eq {list : List (StringView κ)} (exact : ∀ s ∈ list, Exact mem s)
    (small : (bytesOf mem list).length < sizeLimit) :
    totalSize list = (bytesOf mem list).length := by
  have sizes : list.map StringView.size = list.map fun s => (s.contents mem).length :=
    List.map_congr_left exact
  rw [bytesOf, List.length_flatMap] at small ⊢
  rw [totalSize, sizes, Nat.mod_eq_of_lt small]

theorem generator_exact {header c : κ} {list : List (StringView κ)}
    (exact : ∀ s ∈ list, Exact mem s)
    (text : mem header = (lib.netstringGenerator header c list).2) (one : mem c = [comma]) :
    ∀ s ∈ (lib.netstringGenerator header c list).1, Exact mem s := by
  rw [lib.netstringGenerator_eq] at text ⊢
  intro s hs
  simp only [List.cons_append, List.mem_cons, List.mem_append, List.not_mem_nil, or_false] at hs
  rcases hs with rfl | hs | rfl
  · exact exact_whole (congrArg List.length text)
  · exact exact s hs
  · exact exact_whole (by rw [one]; rfl)

theorem bytesOf_generator {header c : κ} {list : List (StringView κ)}
    (exact : ∀ s ∈ list, Exact mem s) (small : (bytesOf mem list).length < sizeLimit)
    (text : mem header = (lib.netstringGenerator header c list).2) (one : mem c = [comma]) :
    bytesOf mem (lib.netstringGenerator header c list).1 = encode (bytesOf mem list) := by
  have total := totalSize_eq exact small
  rw [lib.netstringGenerator_eq] at text ⊢
  dsimp only at text ⊢
  have length := congrArg List.length text
  rw [bytesOf, List.cons_append, List.flatMap_cons, List.flatMap_append,
    contents_whole_view length, text, total, lib.netstringHeader_eq _ small, List.flatMap_cons,
    contents_whole_view (by rw [one]; rfl), one]
  simp [encode, ascii, colon]

variable (lib mem) in
theorem bytesOf_le_generator (header c : κ) (list : List (StringView κ)) :
    (bytesOf mem list).length ≤ (bytesOf mem (lib.netstringGenerator header c list).1).length := by
  rw [lib.netstringGenerator_eq]
  simp only [bytesOf, List.cons_append, List.flatMap_cons, List.flatMap_append, List.length_append]
  omega

end Segments

section Written

variable {lib : Libcommon} {mail : MutableMail} {receivedBuffer : Bytes}

theorem headerViews_bytes (mem : Storage → Bytes)
    (kept : ∀ n, mem (.header n) = mail.memory (.header n)) :
    bytesOf mem mail.headerViews = mail.headers.flatten := by
  have reads : mail.headerViews.map (StringView.contents mem) = mail.headers := by
    apply List.ext_getElem
    · simp [MutableMail.headerViews]
    · intro i h₁ h₂
      simp only [MutableMail.headerViews, List.getElem_map, List.getElem_reverse,
        List.getElem_range, List.length_range, View.whole]
      rw [contents_whole_view (by rw [kept]), kept, MutableMail.memory,
        List.getElem?_reverse (by omega)]
      have back : mail.headers.length - 1 - (mail.headers.length - 1 - i) = i := by omega
      rw [back, List.getElem?_eq_getElem h₂, Option.getD_some]
  rw [bytesOf, List.flatMap_def, reads]

theorem headerViews_exact (mem : Storage → Bytes)
    (kept : ∀ n, mem (.header n) = mail.memory (.header n)) :
    ∀ s ∈ mail.headerViews, Exact mem s := by
  intro s hs
  obtain ⟨n, -, rfl⟩ := List.mem_map.mp hs
  exact exact_whole (by rw [kept])

def Extends (mem : Storage → Bytes) (mail : MutableMail) : Prop :=
  mem .buffer = mail.memory .buffer ∧ mem .senderBuffer = mail.memory .senderBuffer ∧
    ∀ n, mem (.header n) = mail.memory (.header n)

theorem BasicRelay.memory_extends (relay : BasicRelay) :
    Extends (relay.memory mail receivedBuffer) mail :=
  ⟨rfl, rfl, fun _ => rfl⟩

theorem FieldReads.extend {field : StringView Storage} {x : Bytes} {mem : Storage → Bytes}
    (h : FieldReads mail field x) (ext : Extends mem mail) :
    Exact mem field ∧ field.contents mem = x := by
  obtain ⟨v, rfl, place, within, reads⟩ := h
  have same : mem v.storage = mail.memory v.storage := by
    rcases place with place | place <;> rw [place]
    · exact ext.1
    · exact ext.2.1
  refine ⟨exact_of_within (by simpa only [View.Within, same] using within), ?_⟩
  rw [StringView.contents, View.contents_congr same, reads]

theorem receivedView_reads (mem : Storage → Bytes) (peerAuth : SocketPeerAuth)
    (h : mem .receivedBuffer = receivedHeader lib peerAuth) :
    bytesOf mem (receivedView lib peerAuth) = receivedHeader lib peerAuth ∧
      ∀ s ∈ receivedView lib peerAuth, Exact mem s := by
  cases peerAuth with
  | none => exact ⟨rfl, by simp [receivedView]⟩
  | some cred =>
    have length := congrArg List.length h
    constructor
    · rw [bytesOf, receivedView, List.flatMap_cons, List.flatMap_nil, List.append_nil, ← h]
      exact contents_whole_view length
    · intro s hs
      rw [List.mem_singleton.mp hs]
      exact exact_whole length

variable (lib) in
theorem inner_reads {mem : Storage → Bytes} (peerAuth : SocketPeerAuth) {m : Bytes}
    (ext : Extends mem mail) (received : mem .receivedBuffer = receivedHeader lib peerAuth)
    (message : FieldReads mail mail.message m) :
    bytesOf mem (mail.headerViews ++ receivedView lib peerAuth ++ [mail.message]) =
        mail.headers.flatten ++ receivedHeader lib peerAuth ++ m ∧
      ∀ x ∈ mail.headerViews ++ receivedView lib peerAuth ++ [mail.message], Exact mem x := by
  obtain ⟨messageExact, messageReads⟩ := message.extend ext
  obtain ⟨receivedReads, receivedExact⟩ := receivedView_reads mem peerAuth received
  constructor
  · simp only [bytesOf, List.flatMap_append, List.flatMap_cons, List.flatMap_nil,
      List.append_nil, messageReads] at receivedReads ⊢
    rw [receivedReads, ← headerViews_bytes mem ext.2.2]
  · intro x hx
    simp only [List.mem_append, List.mem_singleton] at hx
    rcases hx with (hx | hx) | rfl
    · exact headerViews_exact mem ext.2.2 x hx
    · exact receivedExact x hx
    · exact messageExact

/-- No segment of the request leaves its storage. -/
theorem BasicRelay.new_exact (lib : Libcommon) (peerAuth : SocketPeerAuth) {m s t : Bytes}
    (message : FieldReads mail mail.message m) (sender : FieldReads mail mail.sender s)
    (tail : FieldReads mail mail.tail t) {mem : Storage → Bytes} (ext : Extends mem mail)
    (received : mem .receivedBuffer = receivedHeader lib peerAuth) (one : mem .comma = [comma]) :
    let relay := BasicRelay.new lib mail (mail.headerViews ++ receivedView lib peerAuth)
    mem .generator = relay.generator → mem .senderHeader = relay.senderHeader →
      ∀ x ∈ relay.request, Exact mem x := by
  intro relay text header x hx
  obtain ⟨-, innerExact⟩ := inner_reads lib peerAuth ext received message
  have request : relay.request = (lib.netstringGenerator Storage.generator .comma
      (mail.headerViews ++ receivedView lib peerAuth ++ [mail.message])).1 ++
        [some ⟨.senderHeader, 0, relay.senderHeader.length⟩, mail.sender, mail.tail] := rfl
  rw [request] at hx
  simp only [List.mem_append, List.mem_cons, List.not_mem_nil, or_false] at hx
  rcases hx with hx | rfl | rfl | rfl
  · exact generator_exact innerExact text one x hx
  · exact exact_whole (congrArg List.length header)
  · exact (sender.extend ext).1
  · exact (tail.extend ext).1

/-- The bytes of the request, for a mail whose fields read as `m`, `s` and `t`. -/
theorem relayed_bytes (lib : Libcommon) (peerAuth : SocketPeerAuth) {m s t : Bytes}
    (message : FieldReads mail mail.message m) (sender : FieldReads mail mail.sender s)
    (tail : FieldReads mail mail.tail t) : ∃ bytes, relayed lib peerAuth mail = .ok bytes ∧
      (bytes.length < sizeLimit → bytes = encode
        (encode (mail.headers.flatten ++ receivedHeader lib peerAuth ++ m) ++
          (numeral s.length ++ colon :: s ++ t))) := by
  rw [relayed, assembleHeaders_eq]
  refine ⟨_, rfl, ?_⟩
  set headers := mail.headerViews ++ receivedView lib peerAuth
  set relay := (BasicRelay.new lib mail headers).sendRequest lib
  set mem := relay.memory mail (receivedHeader lib peerAuth)
  have ext : Extends mem mail := relay.memory_extends
  obtain ⟨inner, innerExact⟩ := inner_reads lib peerAuth ext rfl message
  obtain ⟨senderExact, senderReads⟩ := sender.extend ext
  obtain ⟨tailExact, tailReads⟩ := tail.extend ext
  intro small
  set first := lib.netstringGenerator Storage.generator .comma (headers ++ [mail.message])
    with hfirst
  set text := lib.netstringHeader mail.sender.size with htext
  set fields := first.1 ++ [some ⟨.senderHeader, 0, text.length⟩, mail.sender, mail.tail]
    with hfields
  have textReads : mem .senderHeader = text := rfl
  have firstText : mem .generator = first.2 := rfl
  have lastText : mem .client =
      (lib.netstringGenerator Storage.client .comma fields).2 := rfl
  have commaReads : mem .comma = [comma] := rfl
  have smaller : (bytesOf mem fields).length < sizeLimit :=
    (bytesOf_le_generator lib mem Storage.client .comma fields).trans_lt small
  have split : bytesOf mem fields = bytesOf mem first.1 ++ (text ++ s ++ t) := by
    simp only [bytesOf, hfields, List.flatMap_append, List.flatMap_cons, List.flatMap_nil,
      senderReads, tailReads, List.append_nil, List.append_assoc]
    rw [contents_whole_view (congrArg List.length textReads), textReads]
  have innerSmall : (bytesOf mem (headers ++ [mail.message])).length < sizeLimit := by
    have le := bytesOf_le_generator lib mem Storage.generator .comma
      (headers ++ [mail.message])
    rw [split, List.length_append] at smaller
    rw [← hfirst] at le
    omega
  have firstReads := bytesOf_generator innerExact innerSmall firstText commaReads
  have senderSize : mail.sender.size = s.length := by
    rw [← senderReads]
    exact senderExact
  have header : text = numeral s.length ++ [colon] := by
    rw [htext, senderSize, lib.netstringHeader_eq]
    · rfl
    · rw [split] at smaller
      simp only [List.length_append] at smaller
      omega
  have fieldsExact : ∀ x ∈ fields, Exact mem x :=
    BasicRelay.new_exact lib peerAuth message sender tail ext rfl commaReads firstText textReads
  have outer := bytesOf_generator fieldsExact smaller lastText commaReads
  have whole : relay.written mail (receivedHeader lib peerAuth) =
      bytesOf mem (lib.netstringGenerator Storage.client .comma fields).1 := rfl
  rw [whole, outer, split, firstReads, inner, header]
  simp

end Written

section Decoding

variable {lib : Libcommon}

/-- A parsed mail has its fields from the payload. -/
theorem parse_success {payload : Buffer} {mail : MutableMail}
    (h : (MutableMail.new payload).parse lib = .ok (.success, mail)) :
    mail = { MutableMail.new payload with toQmqpMail := mail.toQmqpMail } ∧
      ∃ m s rs tail, Submission lib payload.bytes m s rs ∧ Splits (Netstring lib) tail rs [] ∧
        Reads mail.memory .buffer mail.toQmqpMail m s rs (comma :: tail) := by
  have within : (View.whole (freshMemory payload).bytes .buffer).Within
      (freshMemory payload).bytes :=
    View.within_whole _
  obtain ⟨result, parsed, run, only, fields⟩ := @parse_decided lib _ _ _ within
  have run' : QmqpMail.parse lib (MutableMail.new payload).memory
      (View.whole (MutableMail.new payload).memory .buffer) {} = .ok (result, parsed) := run
  rw [View.contents_whole] at only fields
  simp only [MutableMail.parse, MutableMail.new, bind, Except.bind] at h run'
  rw [run'] at h
  obtain ⟨rfl, rfl⟩ : result = .success ∧
      { MutableMail.new payload with toQmqpMail := parsed } = mail := by
    cases h
    exact ⟨rfl, rfl⟩
  obtain ⟨m, s, rs, sub⟩ := submission_iff.mpr ((only _).mp rfl)
  obtain ⟨wm, ws, tail, -, -, -, splits, reads⟩ := fields m s rs sub
  exact ⟨rfl, m, s, rs, tail, sub, splits, reads⟩

theorem parse_written {m s t : Bytes} {rs : List Bytes} (splits : Splits (Netstring lib) t rs [])
    (one : 1 ≤ rs.length) (bound : rs.length ≤ maxRecipients)
    (sender : lib.verifyEmailAddress s) (recipients : ∀ r ∈ rs, lib.verifyEmailAddress r)
    {value : Buffer} (eq : value.bytes = encode m ++ (encode s ++ t)) :
    ∃ out, QmqpMail.parse lib value.memory.bytes value.view {} = .ok (.success, out) ∧
      Reads value.memory.bytes () out m s rs (comma :: t) := by
  have small := value.size_lt
  rw [eq] at small
  simp only [List.length_append] at small
  have message : Netstring lib (encode m) m := netstring_iff.mpr ⟨word_encode m, by omega⟩
  have address : Netstring lib (encode s) s := netstring_iff.mpr ⟨word_encode s, by omega⟩
  have sub : Submission lib value.bytes m s rs := by
    refine ⟨?_, one, bound, sender, recipients⟩
    rw [eq]
    exact .cons message (.cons address splits)
  obtain ⟨result, out, run, only, fields⟩ := @parse_decided lib _ _ _ value.within_view
  rw [value.contents_view] at only fields
  have success : result = .success := (only _).mpr (submission_iff.mp ⟨m, s, rs, sub⟩)
  obtain ⟨wm, ws, tail, hm, hs, shape, -, reads⟩ := fields m s rs sub
  -- the tail is what two words leave of the value, so it is `t`
  rw [eq] at shape
  obtain ⟨-, rest⟩ := netstring_prefixFree message hm shape
  obtain ⟨-, rfl⟩ := netstring_prefixFree address hs rest
  exact ⟨out, success ▸ run, reads⟩

theorem drop_takeWhile (s : Bytes) (p : UInt8 → Bool) :
    s.drop (s.takeWhile p).length = s.dropWhile p := by
  calc
    s.drop (s.takeWhile p).length
      = (s.takeWhile p ++ s.dropWhile p).drop (s.takeWhile p).length := by
        rw [List.takeWhile_append_dropWhile]
    _ = s.dropWhile p := List.drop_left

theorem QmqpMail.ReadsAs.map_contents {κ : Type} {mem : κ → Bytes} {k : κ} {views : List (View κ)}
    {xs : List Bytes} (h : List.Forall₂ (ReadsAs mem k) views xs) :
    views.map (·.contents mem) = xs := by
  induction h with
  | nil => rfl
  | cons h _ ih => rw [List.map_cons, h.contents, ih]

theorem QmqpMail.ReadsAs.field {mail mail' : MutableMail} {v : View Storage} {x : Bytes}
    (h : ReadsAs mail.memory .buffer v x) (buffer : mail'.buffer = mail.buffer) :
    FieldReads mail' (some v) x := by
  have same : mail.memory v.storage = mail'.memory v.storage := by
    simp only [h.storage, MutableMail.memory, buffer]
  refine ⟨v, rfl, .inl h.storage, ?_, ?_⟩
  · simpa only [View.Within, same] using h.within
  · rw [← View.contents_congr same, h.contents]

theorem QmqpMail.ReadsAs.stripLeft {κ : Type} {mem : κ → Bytes} {k : κ} {v : View κ} {x : Bytes}
    (h : ReadsAs mem k v x) : ReadsAs mem k (lib.stripLeft mem v) (x.dropWhile isSpace) := by
  have length := h.within.length_contents
  have shorter := (List.takeWhile_prefix (l := v.contents mem) isSpace).length_le
  have le : ((v.contents mem).takeWhile isSpace).length ≤ v.size := by omega
  rw [lib.stripLeft_eq _ _ h.within]
  refine ⟨h.storage, h.within.part (by omega), ?_⟩
  rw [View.contents_dropFront le, drop_takeWhile, h.contents]

/-- What the fields of a mail read after a script, and the lines in front of it. -/
structure MailCall.Leaves (mail : MutableMail) (accepted : List MailCall) (m s t : Bytes) :
    Prop where
  message : FieldReads mail mail.message (m.dropWhile isSpace)
  sender : FieldReads mail mail.sender ((lastSender accepted).getD s)
  tail : FieldReads mail mail.tail t
  headers : mail.headers = lines accepted

theorem MailCall.script_leaves {payload : Buffer} {mail : MutableMail}
    (fresh : mail = { MutableMail.new payload with toQmqpMail := mail.toQmqpMail })
    {m s t : Bytes} {rs : List Bytes}
    (reads : Reads mail.memory .buffer mail.toQmqpMail m s rs t) (calls : List MailCall) :
    let edited := script lib calls { toMutableMail := mail.stripMessage lib }
    Leaves edited.1.toMutableMail edited.2 m s t := by
  intro edited
  obtain ⟨⟨vm, message, hm⟩, ⟨vs, sender, hs⟩, -, ⟨vt, tail, ht⟩⟩ := reads
  have edit : Edited lib { toMutableMail := mail.stripMessage lib } edited.2 edited.1 :=
    script_edited calls _
  constructor
  · have strip : edited.1.message = some (lib.stripLeft mail.memory vm) := by
      rw [edit.message]
      simp only [MutableMail.stripMessage, message, Option.map_some]
    rw [strip]
    exact hm.stripLeft.field edit.buffer
  · apply edit.sender s
    have same : (mail.stripMessage lib).sender = some vs := sender
    rw [same]
    exact hs.field rfl
  · have same : edited.1.tail = some vt := edit.tail.trans tail
    rw [same]
    exact ht.field edit.buffer
  · have none : (mail.stripMessage lib).headers = [] := congrArg MutableMail.headers fresh
    rw [edit.headers, none, List.append_nil]

/-- The relayed mail, decoded by the next server, is the edited mail. -/
theorem relay_round_trip (lib : Libcommon) {payload : Buffer} {mail : MutableMail}
    (parsed : (MutableMail.new payload).parse lib = .ok (.success, mail)) (calls : List MailCall)
    (peerAuth : SocketPeerAuth) :
    let edited := MailCall.script lib calls { toMutableMail := mail.stripMessage lib }
    ∃ bytes, relayed lib peerAuth edited.1.toMutableMail = .ok bytes ∧
      ∀ wire : Buffer, wire.bytes = bytes → ∃ value : Buffer,
        parseBuffer lib wire = .ok (some value.bytes, []) ∧
        ∃ out, QmqpMail.parse lib value.memory.bytes value.view {} = .ok (.success, out) ∧
          Reads value.memory.bytes () out
            ((MailCall.lines edited.2).flatten ++ receivedHeader lib peerAuth ++
              (mail.message.contents mail.memory).dropWhile isSpace)
            ((MailCall.lastSender edited.2).getD (mail.sender.contents mail.memory))
            (mail.recipients.map (·.contents mail.memory))
            (mail.tail.contents mail.memory) := by
  intro edited
  obtain ⟨fresh, m, s, rs, t, sub, splits, reads⟩ := parse_success parsed
  obtain ⟨-, one, bound, validSender, validRecipients⟩ := sub
  have left : MailCall.Leaves edited.1.toMutableMail edited.2 m s (comma :: t) :=
    MailCall.script_leaves fresh reads calls
  obtain ⟨⟨vm, message, hm⟩, ⟨vs, sender, hs⟩, recipients, ⟨vt, tail, ht⟩⟩ := reads
  have edit : MailCall.Edited lib { toMutableMail := mail.stripMessage lib } edited.2 edited.1 :=
    MailCall.script_edited calls _
  have valid := edit.senderValid s validSender
  obtain ⟨bytes, run, shape⟩ := relayed_bytes lib peerAuth left.message left.sender left.tail
  refine ⟨bytes, run, fun wire same => ?_⟩
  have small : bytes.length < sizeLimit := same ▸ wire.size_lt
  set M := edited.1.headers.flatten ++ receivedHeader lib peerAuth ++ m.dropWhile isSpace
  set S := (MailCall.lastSender edited.2).getD s
  have body : encode M ++ (numeral S.length ++ colon :: S ++ comma :: t) =
      encode M ++ (encode S ++ t) := by
    simp [encode]
  rw [body] at shape
  have fits : (encode M ++ (encode S ++ t)).length < sizeLimit := by
    have longer := Word.length_lt (word_encode (encode M ++ (encode S ++ t)))
    rw [← shape small] at longer
    omega
  refine ⟨⟨_, fits⟩, ?_, ?_⟩
  · apply parseBuffer_word (word_encode (encode M ++ (encode S ++ t)))
    rw [same, shape small, List.append_nil]
  · obtain ⟨out, parse, reads⟩ := parse_written splits one bound valid validRecipients
      (by rfl : Buffer.bytes ⟨_, fits⟩ = _)
    refine ⟨out, parse, ?_⟩
    rw [← left.headers, message, sender, tail, ReadsAs.map_contents recipients]
    simp only [StringView.contents, hm.contents, hs.contents, ht.contents]
    exact reads

/-- Two recipients, a leading blank, one header, and one rejected sender after an accepted one. -/
def samplePayload : Buffer where
  bytes := ascii "4: hi\n,3:a@b,3:c@d,4:ee@f,"
  size_lt := by decide

def sampleMail : MutableMail where
  buffer := samplePayload
  message := some ⟨.buffer, 2, 4⟩
  sender := some ⟨.buffer, 9, 3⟩
  recipients := [⟨.buffer, 15, 3⟩, ⟨.buffer, 21, 4⟩]
  tail := some ⟨.buffer, 12, 14⟩

def sampleCalls : List MailCall :=
  [.newIndex (.string (ascii "sender")) (.string (ascii "x@y")),
    .insertHeader [.string (ascii "X"), .string (ascii "1")],
    .newIndex (.string (ascii "sender")) (.string (ascii "nobody"))]

def sampleWire : Buffer where
  bytes := ascii ("70:47:X: 1\r\nReceived: from PID=7 UID=8 " ++
    "with QMQP\r\nhi\n,3:x@y,3:c@d,4:ee@f,,")
  size_lt := by decide

set_option maxRecDepth 4000 in
theorem relay_round_trip_sample : ∃ (value : Buffer) (out : QmqpMail Unit),
    parseBuffer .reference sampleWire = .ok (some value.bytes, []) ∧
      QmqpMail.parse .reference value.memory.bytes value.view {} = .ok (.success, out) ∧
      Reads value.memory.bytes () out
        (ascii "X: 1\r\nReceived: from PID=7 UID=8 with QMQP\r\nhi\n") (ascii "x@y")
        [ascii "c@d", ascii "ee@f"] (ascii ",3:c@d,4:ee@f,") := by
  have parsed : (MutableMail.new samplePayload).parse .reference = .ok (.success, sampleMail) := rfl
  obtain ⟨bytes, run, decodes⟩ :=
    relay_round_trip .reference parsed sampleCalls (some ⟨7, 8⟩)
  have sent : sampleWire.bytes = bytes := Except.ok.inj (Eq.trans rfl run)
  obtain ⟨value, decoded, out, success, reads⟩ := decodes sampleWire sent
  exact ⟨value, out, decoded, success, reads⟩

end Decoding

end Qrelay
