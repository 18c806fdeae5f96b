import Mathlib.Data.List.DropRight
import Qrelay.Letter

/-! A mail that goes from one server to the next. What a handler's calls make
of a letter has a closed form, an accepted letter stays one under all edits, and
the request for it decodes to it. So no later server refuses a mail that is not
too big for it, and it arrives with the lines of all servers in front of it. -/

namespace Qrelay
open Lib Lib.Decimal Lib.PrefixCode QmqpMail

namespace Letter

variable (lib : Libcommon)

/-- What the calls of a handler that catches errors make of the letter. -/
def edit (letter : Letter) (calls : List MailCall) : Letter :=
  calls.foldl (fun letter c => (letter.call lib c).toOption.getD letter) letter

def validHeaders (calls : List MailCall) : List (Bytes × Bytes) :=
  calls.filterMap fun
    | .insertHeader args => (headerOf args).toOption
    | .newIndex _ _ => none

def assignments (calls : List MailCall) : List Assignment :=
  calls.filterMap fun
    | .insertHeader _ => none
    | .newIndex name value => (assignmentOf lib name value).toOption

def Assignment.asSender : Assignment → Option Bytes
  | .sender s => some s
  | .account _ => none

def Assignment.asAccount : Assignment → Option Bytes
  | .sender _ => none
  | .account a => some a

def validSenders (calls : List MailCall) : List Bytes :=
  (assignments lib calls).filterMap Assignment.asSender

def validAccounts (calls : List MailCall) : List Bytes :=
  (assignments lib calls).filterMap Assignment.asAccount

/-- The letter with more headers, and with the last of the new senders and accounts. -/
def revised (letter : Letter) (headers : List (Bytes × Bytes)) (senders accounts : List Bytes) :
    Letter :=
  { letter with
    headers := (headers.take (IncomingMail.maxHeaders - letter.headers.length)).reverse ++
      letter.headers
    sender := senders.getLast?.getD letter.sender
    account := accounts.getLast?.getD letter.account }

variable {lib}

theorem revised_nil (letter : Letter) : letter.revised [] [] [] = letter := by
  simp [revised]

theorem getLast?_append_getD (as bs : List Bytes) (s : Bytes) :
    (as ++ bs).getLast?.getD s = bs.getLast?.getD (as.getLast?.getD s) := by
  rw [List.getLast?_append]
  cases bs.getLast? <;> rfl

theorem revised_append (letter : Letter) (headers headers' : List (Bytes × Bytes))
    (senders senders' accounts accounts' : List Bytes) :
    letter.revised (headers ++ headers') (senders ++ senders') (accounts ++ accounts') =
      (letter.revised headers senders accounts).revised headers' senders' accounts' := by
  have room : IncomingMail.maxHeaders - letter.headers.length - headers.length =
      IncomingMail.maxHeaders - (letter.revised headers senders accounts).headers.length := by
    simp only [revised, List.length_append, List.length_reverse, List.length_take]
    omega
  rw [revised, List.take_append, List.reverse_append, room, getLast?_append_getD,
    getLast?_append_getD]
  simp [revised]

theorem call_revises (letter : Letter) (c : MailCall) :
    (letter.call lib c).toOption.getD letter =
      letter.revised (validHeaders [c]) (validSenders lib [c]) (validAccounts lib [c]) := by
  cases c with
  | insertHeader args =>
    simp only [call, validHeaders, validSenders, validAccounts, assignments, List.filterMap_cons,
      List.filterMap_nil]
    cases headerOf args with
    | error e => exact (revised_nil letter).symm
    | ok header =>
      by_cases room : letter.headers.length < IncomingMail.maxHeaders
      · have one : [header].take (IncomingMail.maxHeaders - letter.headers.length) = [header] := by
          rw [List.take_of_length_le]
          simp only [List.length_singleton]
          omega
        simp [bind, Except.bind, Except.toOption, insert, room, revised, one]
      · have none : IncomingMail.maxHeaders - letter.headers.length = 0 := by omega
        simp [bind, Except.bind, Except.toOption, insert, room, revised, none]
  | newIndex name value =>
    simp only [call, validHeaders, validSenders, validAccounts, assignments, List.filterMap_cons,
      List.filterMap_nil]
    cases assignmentOf lib name value with
    | error e => exact (revised_nil letter).symm
    | ok assignment =>
      cases assignment <;>
        simp [Except.toOption, assign, revised, Assignment.asSender, Assignment.asAccount]

theorem edit_cons (letter : Letter) (c : MailCall) (calls : List MailCall) :
    letter.edit lib (c :: calls) = ((letter.call lib c).toOption.getD letter).edit lib calls := rfl

theorem edit_eq (letter : Letter) (calls : List MailCall) :
    letter.edit lib calls =
      letter.revised (validHeaders calls) (validSenders lib calls) (validAccounts lib calls) := by
  induction calls generalizing letter with
  | nil => exact (revised_nil letter).symm
  | cons c calls ih =>
    have headers : validHeaders (c :: calls) = validHeaders [c] ++ validHeaders calls :=
      List.filterMap_append (l := [c])
    have assigned : assignments lib (c :: calls) = assignments lib [c] ++ assignments lib calls :=
      List.filterMap_append (l := [c])
    have senders : validSenders lib (c :: calls) =
        validSenders lib [c] ++ validSenders lib calls := by
      rw [validSenders, assigned, List.filterMap_append]
      rfl
    have accounts : validAccounts lib (c :: calls) =
        validAccounts lib [c] ++ validAccounts lib calls := by
      rw [validAccounts, assigned, List.filterMap_append]
      rfl
    rw [edit_cons, ih, call_revises, headers, senders, accounts, revised_append]

theorem assignmentOf_valid {name value : LuaValue} {s : Bytes}
    (h : assignmentOf lib name value = .ok (.sender s)) : lib.verifyEmailAddress s := by
  simp only [assignmentOf, argument_bind] at h
  cases hn : name.text with
  | none =>
    simp only [hn] at h
    cases h
  | some n =>
    simp only [hn] at h
    cases hv : value.text with
    | none =>
      simp only [hv] at h
      split_ifs at h
      all_goals cases h
    | some t =>
      simp only [hv] at h
      split_ifs at h with isSender valid
      · cases h
        exact valid
      all_goals cases h

theorem validSenders_valid (calls : List MailCall) :
    ∀ s ∈ validSenders lib calls, lib.verifyEmailAddress s := by
  intro s mem
  obtain ⟨assignment, among, isSender⟩ := List.mem_filterMap.mp mem
  obtain ⟨c, -, accepted⟩ := List.mem_filterMap.mp among
  cases assignment with
  | account a => cases isSender
  | sender t =>
    cases isSender
    cases c with
    | insertHeader args => cases accepted
    | newIndex name value =>
      dsimp only at accepted
      cases run : assignmentOf lib name value with
      | error e =>
        rw [run] at accepted
        cases accepted
      | ok assignment =>
        rw [run] at accepted
        cases accepted
        exact assignmentOf_valid run

/-- A letter that a server accepts when it is sent to it. -/
structure Acceptable (lib : Libcommon) (letter : Letter) : Prop where
  tail : ∃ t, letter.tail = comma :: t ∧ Splits (Netstring lib) t letter.recipients []
  one : 1 ≤ letter.recipients.length
  bound : letter.recipients.length ≤ maxRecipients
  sender : lib.verifyEmailAddress letter.sender
  recipients : ∀ r ∈ letter.recipients, lib.verifyEmailAddress r

theorem Acceptable.edit {letter : Letter} (h : letter.Acceptable lib) (calls : List MailCall) :
    (letter.edit lib calls).Acceptable lib := by
  rw [edit_eq]
  refine ⟨h.tail, h.one, h.bound, ?_, h.recipients⟩
  cases last : (validSenders lib calls).getLast? with
  | none => simpa only [revised, last, Option.getD_none] using h.sender
  | some s =>
    simpa only [revised, last, Option.getD_some] using
      validSenders_valid calls s (List.mem_of_getLast? last)

theorem Acceptable.of_parsed {payload : Buffer} {mail : MutableMail}
    (parsed : (MutableMail.new payload).parse lib = .ok (.success, mail))
    (peer : Option ClientCred) : (Letter.of mail peer).Acceptable lib := by
  obtain ⟨-, m, s, rs, t, ⟨-, one, bound, sender, recipients⟩, splits, reads⟩ :=
    parse_success parsed
  rw [Letter.of_reads reads]
  exact ⟨⟨t, rfl, splits⟩, one, bound, sender, recipients⟩

end Letter

section Request

variable {lib : Libcommon}

theorem MutableMail.parse_written {letter : Letter} (h : letter.Acceptable lib) {m : Bytes}
    {payload : Buffer} (eq : payload.bytes = encode m ++
      (numeral letter.sender.length ++ colon :: letter.sender ++ letter.tail)) :
    ∃ mail, (MutableMail.new payload).parse lib = .ok (.success, mail) ∧
      Reads mail.memory .buffer mail.toQmqpMail m letter.sender letter.recipients letter.tail := by
  obtain ⟨t, tail, splits⟩ := h.tail
  have words : payload.bytes = encode m ++ (encode letter.sender ++ t) := by
    rw [eq, tail]
    simp [encode]
  have small := payload.size_lt
  rw [words] at small
  simp only [List.length_append] at small
  have message : Netstring lib (encode m) m := netstring_iff.mpr ⟨word_encode m, by omega⟩
  have address : Netstring lib (encode letter.sender) letter.sender :=
    netstring_iff.mpr ⟨word_encode letter.sender, by omega⟩
  have sub : Submission lib payload.bytes m letter.sender letter.recipients := by
    refine ⟨?_, h.one, h.bound, h.sender, h.recipients⟩
    rw [words]
    exact .cons message (.cons address splits)
  obtain ⟨result, parsed, run, only, fields⟩ := @parse_decided lib Storage (freshMemory payload) _
    (View.within_whole _)
  have bytes : (freshMemory payload).bytes .buffer = payload.bytes := rfl
  rw [View.contents_whole, bytes] at only fields
  have success : result = .success := (only _).mpr (submission_iff.mp ⟨_, _, _, sub⟩)
  obtain ⟨wm, ws, tail', hm, hs, shape, -, reads⟩ := fields _ _ _ sub
  -- the tail is what two words leave of the payload
  rw [words] at shape
  obtain ⟨-, rest⟩ := netstring_prefixFree message hm shape
  obtain ⟨-, rfl⟩ := netstring_prefixFree address hs rest
  have run' : QmqpMail.parse lib (MutableMail.new payload).memory
      (View.whole (MutableMail.new payload).memory .buffer) (MutableMail.new payload).toQmqpMail =
        .ok (.success, parsed) := success ▸ run
  refine ⟨{ MutableMail.new payload with toQmqpMail := parsed }, ?_, ?_⟩
  · simp only [MutableMail.parse, bind, Except.bind, run']
    rfl
  · rw [tail]
    exact reads

def Letter.inner (lib : Libcommon) (letter : Letter) : Bytes :=
  encode (letter.document lib) ++
    (numeral letter.sender.length ++ colon :: letter.sender ++ letter.tail)

/-- The request for an acceptable letter is a submission of its document. -/
theorem Letter.Acceptable.decodes {letter : Letter} (h : letter.Acceptable lib) {wire : Buffer}
    (sent : wire.bytes = letter.request lib) : ∃ value : Buffer, value.bytes = letter.inner lib ∧
      parseBuffer lib wire = .ok (some value.bytes, []) ∧
      ∃ mail, (MutableMail.new value).parse lib = .ok (.success, mail) ∧
        Reads mail.memory .buffer mail.toQmqpMail (letter.document lib) letter.sender
          letter.recipients letter.tail := by
  have outer : wire.bytes = encode (letter.inner lib) := sent
  have fits : (letter.inner lib).length < sizeLimit := by
    have longer := Word.length_lt (word_encode (letter.inner lib))
    have small := wire.size_lt
    rw [outer] at small
    omega
  refine ⟨⟨letter.inner lib, fits⟩, rfl, ?_, MutableMail.parse_written h rfl⟩
  apply parseBuffer_word (word_encode (letter.inner lib))
  rw [outer, List.append_nil]

end Request

theorem Letter.respond_call (lib : Libcommon) (letter : Letter) (c : MailCall) :
    (Letter.respond lib (.call c) (some letter)).2 =
      some ((letter.call lib c).toOption.getD letter) := by
  simp only [Letter.respond]
  cases letter.call lib c <;> rfl

/-- What becomes of the object in a script is what becomes of the letter. -/
theorem LuaMail.Shows.script {lib : Libcommon} {object : LuaMail} {letter : Letter}
    (h : object.Shows letter) (calls : List MailCall) :
    LuaMail.Shows { object with
      toIncomingMail := (MailCall.script lib calls object.toIncomingMail).1 }
        (letter.edit lib calls) := by
  induction calls generalizing object letter with
  | nil => exact h
  | cons c calls ih =>
    have one : LuaMail.Agrees (LuaMail.respond lib (.call c) object)
      (Letter.respond lib (.call c) (some letter)) := LuaMail.respond_agrees (.call c) h
    have behind := one.2
    rw [Letter.respond_call] at behind
    simp only [LuaMail.respond, LuaMail.code, LuaMail.onMail] at behind
    simp only [MailCall.script]
    rw [Letter.edit_cons]
    cases run : c.code lib object.toIncomingMail with
    | ok _ mail =>
      rw [run] at behind
      exact ih behind
    | error e mail =>
      rw [run] at behind
      exact ih behind

/-- libcommon's NetstringServer: what `OnRequest` gets if the client sends these
bytes, with the `max_size` of the constructor, and `none` if it is not called.
Whether a request of just that size is taken is left open. -/
structure NetstringServer where
  receive : ℕ → Bytes → Option Buffer
  value : ∀ {maxSize : ℕ} {x v : Buffer}, receive maxSize (encode x.bytes) = some v → v = x
  accepts : ∀ {maxSize : ℕ} {x : Buffer}, maxSize ≤ 1024 * 1024 * 1024 →
    x.bytes.length < maxSize → (receive maxSize (encode x.bytes)).isSome
  refuses : ∀ {maxSize : ℕ} {x : Buffer}, maxSize < x.bytes.length →
    receive maxSize (encode x.bytes) = none

namespace NetstringServer

def receiveReference (maxSize : ℕ) (bytes : Bytes) : Option Buffer :=
  if small : bytes.length < sizeLimit then
    match parseBuffer .reference ⟨bytes, small⟩ with
    | .ok (some value, []) =>
      if fits : value.length ≤ maxSize ∧ value.length < sizeLimit then some ⟨value, fits.2⟩
      else none
    | _ => none
  else none

theorem receiveReference_encode {maxSize : ℕ} {x : Buffer}
    (small : (encode x.bytes).length < sizeLimit) : receiveReference maxSize (encode x.bytes) =
      if x.bytes.length ≤ maxSize then some x else none := by
  have decoded : parseBuffer .reference ⟨encode x.bytes, small⟩ = .ok (some x.bytes, []) :=
    parseBuffer_word (word_encode x.bytes) (List.append_nil _).symm
  simp only [receiveReference, small, dif_pos, decoded, x.size_lt, and_true]
  split_ifs <;> rfl

theorem receiveReference_long {maxSize : ℕ} {bytes : Bytes} (long : ¬ bytes.length < sizeLimit) :
    receiveReference maxSize bytes = none :=
  dif_neg long

theorem receiveReference_value {maxSize : ℕ} {x v : Buffer}
    (received : receiveReference maxSize (encode x.bytes) = some v) : v = x := by
  by_cases small : (encode x.bytes).length < sizeLimit
  · rw [receiveReference_encode small] at received
    split_ifs at received
    exact (Option.some.inj received).symm
  · rw [receiveReference_long small] at received
    cases received

theorem receiveReference_accepts {maxSize : ℕ} {x : Buffer} (bound : maxSize ≤ 1024 * 1024 * 1024)
    (fits : x.bytes.length < maxSize) : (receiveReference maxSize (encode x.bytes)).isSome := by
  have small : (encode x.bytes).length < sizeLimit := by
    have digits : (numeral x.bytes.length).length ≤ 10 := numeral_length_le (by decide) (by omega)
    simp only [encode, List.length_append, List.length_cons, List.length_nil, sizeLimit]
    omega
  rw [receiveReference_encode small, if_pos fits.le]
  rfl

theorem receiveReference_refuses {maxSize : ℕ} {x : Buffer} (long : maxSize < x.bytes.length) :
    receiveReference maxSize (encode x.bytes) = none := by
  by_cases small : (encode x.bytes).length < sizeLimit
  · rw [receiveReference_encode small, if_neg (by omega)]
  · exact receiveReference_long small

/-- A server that takes a request of just the maximum size. -/
def reference : NetstringServer where
  receive := receiveReference
  value := receiveReference_value
  accepts := receiveReference_accepts
  refuses := receiveReference_refuses

end NetstringServer

/-- A server on the way: its handler, its client, and the `max_size` of the
server that it relays to. -/
structure Hop where
  calls : List MailCall
  peer : Option ClientCred
  maxSize : ℕ
  maxSize_le : maxSize ≤ 1024 * 1024 * 1024

inductive Lost where
  | refused (result : QmqpMail.ParseResult)
  /-- The next server does not call `OnRequest`. -/
  | unreceived
  | faulted (f : Fault)
  deriving DecidableEq, Repr

section Journey

variable (lib : Libcommon) (server : NetstringServer)

/-- What a server sends that parses the payload, runs its handler and relays the mail. -/
def Hop.sends (hop : Hop) (payload : Buffer) : Except Lost Bytes :=
  match (MutableMail.new payload).parse lib with
  | .error f => .error (.faulted f)
  | .ok (.success, mail) =>
    let edited := (MailCall.script lib hop.calls (IncomingMail.received lib mail)).1
    (relayed lib (hop.peer.map (·.toPeerCred)) edited.toMutableMail).mapError .faulted
  | .ok (result, _) => .error (.refused result)

/-- What the next server gets; no request is longer than the address space. -/
def Hop.receive (hop : Hop) (bytes : Bytes) : Except Lost Buffer :=
  match server.receive hop.maxSize bytes with
  | some value => if bytes.length < sizeLimit then .ok value else .error .unreceived
  | none => .error .unreceived

def Hop.pass (hop : Hop) (payload : Buffer) : Except Lost Buffer :=
  hop.sends lib payload >>= hop.receive server

def journey : List Hop → Buffer → Except Lost Buffer
  | [], payload => .ok payload
  | hop :: hops, payload =>
    match hop.pass lib server payload with
    | .error lost => .error lost
    | .ok value => journey hops value

variable {lib server}

def Hop.Overloads (hop : Hop) (bytes : Bytes) : Prop :=
  sizeLimit ≤ bytes.length ∨ ∃ value, bytes = encode value ∧ hop.maxSize ≤ value.length

def Hop.inserted (lib : Libcommon) (hop : Hop) : Bytes :=
  (((Letter.validHeaders hop.calls).take IncomingMail.maxHeaders).reverse.map fun h =>
    MutableMail.headerLine h.1 h.2).flatten ++ receivedHeader lib (hop.peer.map (·.toPeerCred))

theorem Letter.document_edit {letter : Letter} {hop : Hop} (fresh : letter.headers = [])
    (peer : letter.peer = hop.peer) :
    (letter.edit lib hop.calls).document lib = hop.inserted lib ++ letter.message := by
  rw [Letter.edit_eq]
  simp [Letter.document, Letter.lines, Letter.revised, Hop.inserted, fresh, Letter.peerAuth, peer]

def Carries (lib : Libcommon) (payload : Buffer) (message sender : Bytes) (recipients : List Bytes)
    (tail : Bytes) : Prop :=
  ∃ mail, (MutableMail.new payload).parse lib = .ok (.success, mail) ∧
    Reads mail.memory .buffer mail.toQmqpMail message sender recipients tail

theorem receive_request (hop : Hop) {letter : Letter} (h : letter.Acceptable lib) {bytes : Bytes}
    (shape : bytes.length < sizeLimit → bytes = letter.request lib) :
    hop.Overloads bytes ∧ hop.receive server bytes = .error .unreceived ∨
    ∃ value, hop.receive server bytes = .ok value ∧ value.bytes = letter.inner lib ∧
      value.bytes.length ≤ hop.maxSize ∧
      Carries lib value (letter.document lib) letter.sender letter.recipients letter.tail := by
  by_cases small : bytes.length < sizeLimit
  swap
  · refine .inl ⟨.inl (Nat.le_of_not_lt small), ?_⟩
    rw [Hop.receive]
    split
    · exact if_neg small
    · rfl
  obtain ⟨value, inner, -, carried⟩ := @h.decodes lib letter ⟨bytes, small⟩ (shape small)
  have request : bytes = encode value.bytes := by
    rw [shape small, inner]
    rfl
  cases received : server.receive hop.maxSize bytes with
  | none =>
    refine .inl ⟨.inr ⟨value.bytes, request, ?_⟩, by rw [Hop.receive, received]⟩
    by_contra fits
    have accepted := server.accepts (x := value) hop.maxSize_le (by omega)
    rw [← request, received] at accepted
    cases accepted
  | some v =>
    obtain rfl : v = value := server.value (request ▸ received)
    refine .inr ⟨v, by rw [Hop.receive, received]; exact if_pos small, inner, ?_, carried⟩
    by_contra long
    rw [request, server.refuses (by omega)] at received
    cases received

/-- The message and the sender stand in the payload as the code writes them. -/
def Written (payload : Buffer) (m s t : Bytes) : Prop :=
  payload.bytes = encode m ++ (numeral s.length ++ colon :: s ++ t)

theorem Hop.pass_carries (hop : Hop) {payload : Buffer} {m s t : Bytes} {rs : List Bytes}
    (carries : Carries lib payload m s rs t) :
    let m' := hop.inserted lib ++ m.dropWhile isSpace
    let s' := (Letter.validSenders lib hop.calls).getLast?.getD s
    (∃ bytes, hop.sends lib payload = .ok bytes ∧ hop.Overloads bytes ∧
      hop.pass lib server payload = .error .unreceived) ∨
    ∃ value, hop.pass lib server payload = .ok value ∧ Written value m' s' t ∧
      value.bytes.length ≤ hop.maxSize ∧ Carries lib value m' s' rs t := by
  obtain ⟨mail, parsed, reads⟩ := carries
  set letter := (Letter.of mail hop.peer).edit lib hop.calls with hletter
  have new := LuaMail.new_shows parsed hop.peer
  have stands := @LuaMail.Shows.standsFor lib _ _ (@LuaMail.Shows.script lib _ _ new hop.calls)
  obtain ⟨bytes, run, shape⟩ := stands.request
  have acceptable : letter.Acceptable lib := (Letter.Acceptable.of_parsed parsed hop.peer).edit _
  have peer : letter.peerAuth = hop.peer.map (·.toPeerCred) := by
    rw [hletter, Letter.edit_eq]
    rfl
  have sends : hop.sends lib payload = .ok bytes := by
    have run' : relayed lib (hop.peer.map (·.toPeerCred)) (MailCall.script lib hop.calls
      (IncomingMail.received lib mail)).1.toMutableMail = .ok bytes := peer ▸ run
    simp only [Hop.sends, parsed, run', Except.mapError]
  have pass : hop.pass lib server payload = hop.receive server bytes := by
    rw [Hop.pass, sends]
    rfl
  have document : letter.document lib = hop.inserted lib ++ m.dropWhile isSpace := by
    rw [hletter, Letter.document_edit rfl rfl, Letter.of_reads reads]
  have sender : letter.sender = (Letter.validSenders lib hop.calls).getLast?.getD s := by
    rw [hletter, Letter.edit_eq, Letter.of_reads reads]
    rfl
  have rest : letter.recipients = rs ∧ letter.tail = t := by
    rw [hletter, Letter.edit_eq, Letter.of_reads reads]
    exact ⟨rfl, rfl⟩
  have received := @receive_request lib server hop _ acceptable _ shape
  rw [Letter.inner, ← pass, document, sender, rest.1, rest.2] at received
  exact received.imp_left fun ⟨overloads, lost⟩ => ⟨bytes, sends, overloads, lost⟩

theorem Letter.headerOf_valid {args : List LuaValue} {header : Bytes × Bytes}
    (h : headerOf args = .ok header) : ValidHeader header := by
  match args with
  | [] => cases h
  | [_] => cases h
  | _ :: _ :: _ :: _ => cases h
  | [name, value] =>
    simp only [headerOf, argument_bind] at h
    cases hn : name.text with
    | none =>
      simp only [hn] at h
      cases h
    | some n =>
      simp only [hn] at h
      split_ifs at h with validName
      · cases hv : value.text with
        | none =>
          simp only [hv] at h
          cases h
        | some v =>
          simp only [hv] at h
          split_ifs at h with validValue
          cases h
          exact ⟨validName, validValue⟩

theorem Letter.validHeaders_valid (calls : List MailCall) :
    ∀ h ∈ validHeaders calls, ValidHeader h := by
  intro header mem
  obtain ⟨c, -, accepted⟩ := List.mem_filterMap.mp mem
  cases c with
  | newIndex name value => cases accepted
  | insertHeader args =>
    dsimp only at accepted
    cases run : headerOf args with
    | error e =>
      rw [run] at accepted
      cases accepted
    | ok other =>
      rw [run] at accepted
      cases accepted
      exact headerOf_valid run

theorem stripped_cons {b : UInt8} (text : isSpace b = false) (x : Bytes) :
    (b :: x).dropWhile isSpace = b :: x :=
  List.dropWhile_cons_of_neg (by simp [text])

theorem ValidHeader.not_space {header : Bytes × Bytes} (valid : ValidHeader header) :
    ∃ a t, header.1 = a :: t ∧ isSpace a = false := by
  obtain ⟨name, value⟩ := header
  cases name with
  | nil => cases valid.1
  | cons a t =>
    have all := (Bool.and_eq_true_iff.mp valid.1).2
    have char := List.all_eq_true.mp all a List.mem_cons_self
    simp only [IncomingMail.isValidHeaderNameChar, Bool.and_eq_true, decide_eq_true_eq] at char
    refine ⟨a, t, rfl, decide_eq_false ?_⟩
    exact fun space => absurd (UInt8.le_trans char.1.1 space) (by decide)

theorem Hop.inserted_stripped (hop : Hop) {x : Bytes} (stripped : x.dropWhile isSpace = x) :
    (hop.inserted lib ++ x).dropWhile isSpace = hop.inserted lib ++ x := by
  have valid : ∀ h ∈ ((Letter.validHeaders hop.calls).take IncomingMail.maxHeaders).reverse,
      ValidHeader h := fun h mem =>
    Letter.validHeaders_valid hop.calls h (List.mem_of_mem_take (List.mem_reverse.mp mem))
  unfold Hop.inserted
  cases lines : ((Letter.validHeaders hop.calls).take IncomingMail.maxHeaders).reverse with
  | nil =>
    cases hop.peer with
    | none => exact stripped
    | some cred => exact stripped_cons (b := 82) rfl _
  | cons header rest =>
    rw [lines] at valid
    obtain ⟨a, t, name, text⟩ := (valid header List.mem_cons_self).not_space
    simp only [List.map_cons, List.flatten_cons, MutableMail.headerLine, name, List.cons_append]
    exact stripped_cons text _

/-- The mail gets as far as a server whose request the next one refuses. -/
def LostAt (lib : Libcommon) (server : NetstringServer) (hops : List Hop) (payload : Buffer) :
    Prop :=
  ∃ before hop after sent bytes, hops = before ++ hop :: after ∧
    journey lib server before payload = .ok sent ∧ hop.sends lib sent = .ok bytes ∧
    hop.Overloads bytes ∧ journey lib server hops payload = .error .unreceived

theorem LostAt.cons {hop : Hop} {hops : List Hop} {payload value : Buffer}
    (passed : hop.pass lib server payload = .ok value) (lost : LostAt lib server hops value) :
    LostAt lib server (hop :: hops) payload := by
  obtain ⟨before, hop', after, sent, bytes, rfl, arrived, sends, overloads, refused⟩ := lost
  have first (rest : List Hop) :
      journey lib server (hop :: rest) payload = journey lib server rest value := by
    rw [journey, passed]
  exact ⟨hop :: before, hop', after, sent, bytes, rfl, (first _).trans arrived, sends, overloads,
    (first _).trans refused⟩

/-- What arrives of a mail, by the fields of what is sent. Each server writes it
anew, with no white space in front of the message. -/
theorem journey_carries (hops : List Hop) {payload : Buffer} {m s t : Bytes} {rs : List Bytes}
    (carries : Carries lib payload m s rs t) :
    let s' := (hops.flatMap fun hop => Letter.validSenders lib hop.calls).getLast?.getD s
    LostAt lib server hops payload ∨ ∃ last m', journey lib server hops payload = .ok last ∧
      Carries lib last m' s' rs t ∧
      m'.dropWhile isSpace =
        (hops.reverse.map (Hop.inserted lib)).flatten ++ m.dropWhile isSpace ∧
      (hops ≠ [] ∨ Written payload m s t ∧ m.dropWhile isSpace = m →
        Written last m' s' t ∧ m'.dropWhile isSpace = m') ∧
      ∀ hop, hops.getLast? = some hop → last.bytes.length ≤ hop.maxSize := by
  induction hops generalizing payload m s with
  | nil => exact .inr ⟨payload, m, rfl, carries, rfl, fun h => h.elim (absurd rfl) id, nofun⟩
  | cons hop hops ih =>
    obtain ⟨bytes, sends, overloads, lost⟩ | ⟨value, passed, written, fits, carried⟩ :=
      @Hop.pass_carries lib server hop _ _ _ _ _ carries
    · refine .inl ⟨[], hop, hops, payload, bytes, rfl, rfl, sends, overloads, ?_⟩
      rw [journey, lost]
    have stripped : (m.dropWhile isSpace).dropWhile isSpace = m.dropWhile isSpace :=
      List.dropWhile_idempotent isSpace m
    have front := @Hop.inserted_stripped lib hop _ stripped
    rcases ih carried with lost | ⟨last, m', arrived, carried', message, normal, small⟩
    · exact .inl (lost.cons passed)
    have senders : ((hop :: hops).flatMap fun hop =>
        Letter.validSenders lib hop.calls).getLast?.getD s =
          (hops.flatMap fun hop => Letter.validSenders lib hop.calls).getLast?.getD
            ((Letter.validSenders lib hop.calls).getLast?.getD s) := by
      rw [List.flatMap_cons, Letter.getLast?_append_getD]
    rw [← senders] at carried' normal
    refine .inr ⟨last, m', ?_, carried', ?_, fun _ => normal (.inr ⟨written, front⟩), ?_⟩
    · rw [journey, passed]
      exact arrived
    · rw [message, front]
      simp
    · intro hop' final
      cases hops with
      | nil =>
        cases arrived
        cases final
        exact fits
      | cons next rest => exact small hop' (List.getLast?_cons_cons ▸ final)

/-- What a letter is after the servers: it has the lines of all of them in front
of it, the last one first, and the last sender that any of them accepted. -/
structure Forwarded (lib : Libcommon) (hops : List Hop) (letter letter' : Letter) : Prop where
  message : letter'.message = (hops.reverse.map (Hop.inserted lib)).flatten ++ letter.message
  sender : letter'.sender =
    (hops.flatMap fun hop => Letter.validSenders lib hop.calls).getLast?.getD letter.sender
  recipients : letter'.recipients = letter.recipients
  tail : letter'.tail = letter.tail

theorem Carries.forwarded {last : Buffer} {mail : MutableMail} {m m' s t : Bytes} {rs : List Bytes}
    {hops : List Hop} (reads : Reads mail.memory .buffer mail.toQmqpMail m s rs t)
    (carried : Carries lib last m'
      ((hops.flatMap fun hop => Letter.validSenders lib hop.calls).getLast?.getD s) rs t)
    (message : m'.dropWhile isSpace =
      (hops.reverse.map (Hop.inserted lib)).flatten ++ m.dropWhile isSpace) :
    ∃ mail', (MutableMail.new last).parse lib = .ok (.success, mail') ∧
      Forwarded lib hops (Letter.of mail none) (Letter.of mail' none) := by
  obtain ⟨mail', parsed, reads'⟩ := carried
  refine ⟨mail', parsed, ?_⟩
  rw [Letter.of_reads reads none, Letter.of_reads reads' none]
  exact ⟨message, rfl, rfl, rfl⟩

/-- A mail with valid envelope is never lost between servers unless it gets too
big for the next one: it arrives as a letter that all of them have forwarded. -/
theorem journey_arrives (lib : Libcommon) (server : NetstringServer) {payload : Buffer}
    {mail : MutableMail} (parsed : (MutableMail.new payload).parse lib = .ok (.success, mail))
    (hops : List Hop) :
    LostAt lib server hops payload ∨ ∃ last mail', journey lib server hops payload = .ok last ∧
      (MutableMail.new last).parse lib = .ok (.success, mail') ∧
      (∀ hop, hops.getLast? = some hop → last.bytes.length ≤ hop.maxSize) ∧
      Forwarded lib hops (Letter.of mail none) (Letter.of mail' none) := by
  obtain ⟨-, m, s, rs, t, -, -, reads⟩ := parse_success parsed
  rcases journey_carries hops ⟨mail, parsed, reads⟩ with
    lost | ⟨last, m', arrived, carried, message, -, small⟩
  · exact .inl lost
  obtain ⟨mail', parsed', forwarded⟩ := carried.forwarded reads message
  exact .inr ⟨last, mail', arrived, parsed', small, forwarded⟩

def sampleHops : List Hop :=
  [⟨[.insertHeader [.string (ascii "Y"), .number (ascii "2")]], none, 1024, by decide⟩,
    ⟨[.newIndex (.string (ascii "sender")) (.string (ascii "x@y"))], none, 2048, by decide⟩]

def arrivedPayload : Buffer where
  bytes := ascii "9:Y: 2\r\nhi\n,3:x@y,3:c@d,4:ee@f,"
  size_lt := by decide

set_option maxRecDepth 4000 in
theorem journey_arrives_sample : ∃ mail',
    (MutableMail.new arrivedPayload).parse .reference = .ok (.success, mail') ∧
      (Letter.of mail' none).message = ascii "Y: 2\r\nhi\n" ∧
      (Letter.of mail' none).sender = ascii "x@y" := by
  have parsed : (MutableMail.new samplePayload).parse .reference = .ok (.success, sampleMail) := rfl
  have arrives : journey .reference .reference sampleHops samplePayload = .ok arrivedPayload := rfl
  rcases journey_arrives .reference .reference parsed sampleHops with
    ⟨-, -, -, -, -, -, -, -, -, lost⟩ | ⟨last, mail', arrived, parsed', -, forwarded⟩
  · rw [arrives] at lost
    cases lost
  · rw [arrives] at arrived
    cases arrived
    exact ⟨mail', parsed', forwarded.message, forwarded.sender⟩

set_option maxRecDepth 4000 in
/-- A request that is more than the next server takes. -/
example : journey .reference .reference [⟨[], none, 20, by decide⟩] samplePayload =
    .error .unreceived := rfl

end Journey

end Qrelay
