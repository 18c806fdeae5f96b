import Qrelay.HeaderBoundary
import Qrelay.Outline

/-! The mail object of LMail.cxx as Lua code sees it, and the letter that it
stands for. The object consists of views into buffers that are replaced while
it is edited; a letter is a record of texts, and nothing once it is closed. No
script can tell one from the other, and what is sent, written to a child or
logged for the object is what the letter says. -/

namespace Qrelay
open Lib Lib.Decimal QmqpMail

/-- All that `SO_PEERCRED` says of the client process. -/
structure ClientCred extends PeerCred where
  gid : UInt32
  deriving DecidableEq, Repr

inductive LuaResult where
  | nothing
  | function (name : Bytes)
  | string (s : Bytes)
  | integer (n : ℤ)
  | table (elements : List Bytes)
  /-- The object for the control group with this path. -/
  | cgroup (path : Bytes)
  deriving DecidableEq, Repr

inductive Access where
  | call (call : MailCall)
  /-- `__index`; with what `GetCgroupPath` returns or fails with by then. -/
  | index (args : List LuaValue) (cgroupPath : Except LuaError Bytes)
  | close

/-- The object: the mail, the client, and the table that serves as a cache. -/
structure LuaMail extends IncomingMail where
  peer : Option ClientCred
  fenv : List (Bytes × Bytes) := []

namespace LuaMail

def methods : List Bytes :=
  [ascii "insert_header", ascii "connect", ascii "discard", ascii "reject", ascii "exec",
    ascii "exec_raw"]

abbrev Call := EStateM LuaError LuaMail LuaResult

def credential (number : ClientCred → ℤ) : Call := do
  match (← get).peer with
  | none => return .nothing
  | some cred => return .integer (number cred)

def index (cgroupPath : Except LuaError Bytes) : List LuaValue → Call
  | [name] => do
    let key ← checkString 2 name
    check ((← get).stale = false) (.message (ascii "Stale object"))
    let name := cString key
    if name ∈ methods then return .function name
    match (← get).fenv.lookup key with
    | some path => return .cgroup path
    | none =>
      if name = ascii "sender" then
        let mail ← get
        return .string (mail.sender.contents mail.memory)
      else if name = ascii "recipients" then
        let mail ← get
        return .table (mail.recipients.map (·.contents mail.memory))
      else if name = ascii "pid" then credential (·.pid.toInt)
      else if name = ascii "uid" then credential (·.uid.toNat)
      else if name = ascii "gid" then credential (·.gid.toNat)
      else if name = ascii "cgroup" then
        match cgroupPath with
        | .error e => throw e
        | .ok path =>
          if path = [] then return .nothing
          modify fun mail => { mail with fenv := (key, path) :: mail.fenv }
          return .cgroup path
      else throw (.message (ascii "Unknown attribute"))
  | _ => throw (.message (ascii "Invalid parameters"))

def onMail (call : IncomingMail.LuaCall) : Call := fun object =>
  match call object.toIncomingMail with
  | .ok _ mail => .ok .nothing { object with toIncomingMail := mail }
  | .error e mail => .error e { object with toIncomingMail := mail }

variable (lib : Libcommon)

def code : Access → Call
  | .call call => onMail (call.code lib)
  | .index args cgroupPath => index cgroupPath args
  | .close => onMail IncomingMail.close

/-- What the script gets, and the object behind it. -/
def respond (access : Access) (object : LuaMail) : Except LuaError LuaResult × LuaMail :=
  match code lib access object with
  | .ok result object => (.ok result, object)
  | .error e object => (.error e, object)

/-- The object that `NewLuaMail` makes for the handler. -/
def new (mail : MutableMail) (peer : Option ClientCred) : LuaMail :=
  { toIncomingMail := IncomingMail.received lib mail, peer }

end LuaMail

/-- What a mail object is for. -/
structure Letter where
  message : Bytes
  sender : Bytes
  recipients : List Bytes
  /-- The recipients, as they stand in the payload. -/
  tail : Bytes
  /-- Newest first. -/
  headers : List (Bytes × Bytes) := []
  account : Bytes := []
  payloadLength : ℕ
  peer : Option ClientCred
  cgroups : List (Bytes × Bytes) := []
  deriving DecidableEq, Repr

namespace Letter

def stale : LuaError := .message (ascii "Stale object")

def argument (index : ℕ) (v : LuaValue) : Except LuaError Bytes :=
  match v.text with
  | some s => .ok s
  | none => .error (.expectedString index)

inductive Assignment where
  | sender (s : Bytes)
  | account (a : Bytes)
  deriving DecidableEq, Repr

def headerOf : List LuaValue → Except LuaError (Bytes × Bytes)
  | [name, value] => do
    let name ← argument 2 name
    if IncomingMail.isValidHeaderName name then
      let value ← argument 3 value
      if IncomingMail.isValidHeaderValue value then return (name, value)
      else throw (.argument 2 (ascii "Illegal header value"))
    else throw (.argument 2 (ascii "Illegal header name"))
  | _ => throw (.message (ascii "Invalid parameters"))

def assignmentOf (lib : Libcommon) (name value : LuaValue) : Except LuaError Assignment := do
  let name ← argument 2 name
  if cString name = ascii "sender" then
    let sender ← argument 3 value
    if lib.verifyEmailAddress sender then return .sender sender
    else throw (.argument 3 (ascii "Malformed email address"))
  else if cString name = ascii "account" then
    if value = .nil then return .account []
    else
      let account ← argument 3 value
      if account = [] then throw (.argument 3 (ascii "Empty string not allowed"))
      else return .account account
  else throw (.message (ascii "Cannot change this attribute"))

def insert (letter : Letter) (header : Bytes × Bytes) : Except LuaError Letter :=
  if letter.headers.length < IncomingMail.maxHeaders then
    .ok { letter with headers := header :: letter.headers }
  else .error (.message (ascii "Too many headers"))

def assign (letter : Letter) : Assignment → Letter
  | .sender sender => { letter with sender }
  | .account account => { letter with account }

variable (lib : Libcommon)

def call (letter : Letter) : MailCall → Except LuaError Letter
  | .insertHeader args => do letter.insert (← headerOf args)
  | .newIndex name value => do return letter.assign (← assignmentOf lib name value)

/-- The attributes that do not change while they are read. -/
def property (letter : Letter) (name : Bytes) : Option LuaResult :=
  let credential (number : ClientCred → ℤ) : LuaResult :=
    (letter.peer.map fun cred => .integer (number cred)).getD .nothing
  if name = ascii "sender" then some (.string letter.sender)
  else if name = ascii "recipients" then some (.table letter.recipients)
  else if name = ascii "pid" then some (credential (·.pid.toInt))
  else if name = ascii "uid" then some (credential (·.uid.toNat))
  else if name = ascii "gid" then some (credential (·.gid.toNat))
  else none

/-- The control group by now, which the letter keeps. -/
def lookCgroup (letter : Letter) (key : Bytes) :
    Except LuaError Bytes → Except LuaError LuaResult × Option Letter
  | .error e => (.error e, some letter)
  | .ok [] => (.ok .nothing, some letter)
  | .ok path =>
    (.ok (.cgroup path), some { letter with cgroups := (key, path) :: letter.cgroups })

def look (letter : Letter) (key : Bytes) (cgroupPath : Except LuaError Bytes) :
    Except LuaError LuaResult × Option Letter :=
  if cString key ∈ LuaMail.methods then (.ok (.function (cString key)), some letter)
  else
    match letter.cgroups.lookup key with
    | some path => (.ok (.cgroup path), some letter)
    | none =>
      match letter.property (cString key) with
      | some result => (.ok result, some letter)
      | none =>
        if cString key = ascii "cgroup" then letter.lookCgroup key cgroupPath
        else (.error (.message (ascii "Unknown attribute")), some letter)

/-- What a letter answers, and what becomes of it; `none` is a closed letter. -/
def respond : Access → Option Letter → Except LuaError LuaResult × Option Letter
  | .close, _ => (.ok .nothing, none)
  | .call call, some letter =>
    match letter.call lib call with
    | .ok letter => (.ok .nothing, some letter)
    | .error e => (.error e, some letter)
  | .call (.insertHeader args), none =>
    match headerOf args with
    | .ok _ => (.error stale, none)
    | .error e => (.error e, none)
  | .call (.newIndex _ _), none => (.error stale, none)
  | .index [name] cgroupPath, letter =>
    match argument 2 name, letter with
    | .error e, letter => (.error e, letter)
    | .ok _, none => (.error stale, none)
    | .ok key, some letter => letter.look key cgroupPath
  | .index _ _, letter => (.error (.message (ascii "Invalid parameters")), letter)

def lines (letter : Letter) : List Bytes :=
  letter.headers.map fun h => MutableMail.headerLine h.1 h.2

def peerAuth (letter : Letter) : SocketPeerAuth := letter.peer.map (·.toPeerCred)

/-- The message with all lines in front of it: what a child process reads. -/
def document (letter : Letter) : Bytes :=
  letter.lines.flatten ++ receivedHeader lib letter.peerAuth ++ letter.message

/-- The bytes for another server. -/
def request (letter : Letter) : Bytes :=
  encode (encode (letter.document lib) ++
    (numeral letter.sender.length ++ colon :: letter.sender ++ letter.tail))

def logMessage (letter : Letter) (message : Bytes) : Bytes :=
  ascii "from=<" ++ letter.sender ++ ascii "> to=" ++
    List.intercalate (ascii ",") (letter.recipients.map fun recipient =>
      ascii "<" ++ recipient ++ ascii ">") ++
    if message = [] then [] else ascii " " ++ message

def datagram (a : Answers) (startTime : ℤ) (handedOn : Prop) [Decidable handedOn]
    (letter : Letter) (message : Bytes) : Datagram where
  timestamp := a.systemNow
  site := if letter.account = [] then none else some (cString letter.account)
  message := lib.truncateMessage 1024 (letter.logMessage message)
  trafficReceived := letter.payloadLength
  trafficSent :=
    if handedOn then (letter.payloadLength + letter.lines.flatten.length) % sizeLimit else 0
  length := (letter.message.length + letter.lines.flatten.length) % sizeLimit
  duration := a.steadyNow - startTime

end Letter

def InPayload (mail : MutableMail) (field : StringView Storage) (x : Bytes) : Prop :=
  ∃ v, field = some v ∧ ReadsAs mail.memory .buffer v x

/-- The object shows the letter: its views read what the letter says. -/
structure LuaMail.Shows (object : LuaMail) (letter : Letter) : Prop where
  fresh : object.stale = false
  message : InPayload object.toMutableMail object.message letter.message
  sender : FieldReads object.toMutableMail object.sender letter.sender
  recipients : List.Forall₂ (ReadsAs object.memory .buffer) object.recipients letter.recipients
  tail : InPayload object.toMutableMail object.tail letter.tail
  headers : object.headers = letter.lines
  counted : object.nHeaders = letter.headers.length
  account : object.account = letter.account
  payload : object.buffer.bytes.length = letter.payloadLength
  peer : object.peer = letter.peer
  cgroups : object.fenv = letter.cgroups

def LuaMail.Shown (object : LuaMail) : Option Letter → Prop
  | some letter => object.Shows letter
  | none => object.stale = true

section Edits

variable {object : LuaMail} {letter : Letter}

theorem FieldReads.contents {mail : MutableMail} {field : StringView Storage} {x : Bytes}
    (h : FieldReads mail field x) : field.contents mail.memory = x := by
  obtain ⟨v, rfl, -, -, reads⟩ := h
  exact reads

theorem FieldReads.size {mail : MutableMail} {field : StringView Storage} {x : Bytes}
    (h : FieldReads mail field x) : field.size = x.length := by
  obtain ⟨v, rfl, -, within, reads⟩ := h
  rw [← reads, within.length_contents]
  rfl

theorem InPayload.field {mail : MutableMail} {field : StringView Storage} {x : Bytes}
    (h : InPayload mail field x) : FieldReads mail field x := by
  obtain ⟨v, rfl, reads⟩ := h
  exact reads.field rfl

theorem readsAs_congr {mail mail' : MutableMail} {v : View Storage} {x : Bytes}
    (h : ReadsAs mail.memory .buffer v x) (buffer : mail'.buffer = mail.buffer) :
    ReadsAs mail'.memory .buffer v x := by
  have same : mail.memory v.storage = mail'.memory v.storage := by
    simp only [h.storage, MutableMail.memory, buffer]
  have within := h.within
  refine ⟨h.storage, ?_, ?_⟩
  · simpa only [View.Within, same] using within
  · rw [← View.contents_congr same, h.contents]

theorem InPayload.congr {mail mail' : MutableMail} {field : StringView Storage} {x : Bytes}
    (h : InPayload mail field x) (buffer : mail'.buffer = mail.buffer) :
    InPayload mail' field x := by
  obtain ⟨v, eq, reads⟩ := h
  exact ⟨v, eq, readsAs_congr reads buffer⟩

theorem recipients_congr {mail mail' : MutableMail} {views : List (View Storage)}
    {xs : List Bytes} (h : List.Forall₂ (ReadsAs mail.memory .buffer) views xs)
    (buffer : mail'.buffer = mail.buffer) :
    List.Forall₂ (ReadsAs mail'.memory .buffer) views xs :=
  h.imp fun _ _ reads => readsAs_congr reads buffer

theorem fieldReads_setSender (mail : MutableMail) (s : Bytes) :
    FieldReads (mail.setSender s) (mail.setSender s).sender s := by
  refine ⟨⟨.senderBuffer, 0, s.length⟩, rfl, .inr rfl, ?_, ?_⟩
  · simp [View.Within, MutableMail.memory, MutableMail.setSender]
  · simp [View.contents, MutableMail.memory, MutableMail.setSender]

namespace LuaMail.Shows

theorem insertHeader (h : object.Shows letter) (n v : Bytes) :
    Shows { object with
      nHeaders := object.nHeaders + 1
      toMutableMail := object.toMutableMail.insertHeader n v }
        { letter with headers := (n, v) :: letter.headers } where
  fresh := h.fresh
  message := h.message.congr rfl
  sender := h.sender.congr rfl rfl
  recipients := recipients_congr h.recipients rfl
  tail := h.tail.congr rfl
  headers := congrArg (MutableMail.headerLine n v :: ·) h.headers
  counted := congrArg (· + 1) h.counted
  account := h.account
  payload := h.payload
  peer := h.peer
  cgroups := h.cgroups

theorem setSender (h : object.Shows letter) (s : Bytes) :
    Shows { object with toMutableMail := object.toMutableMail.setSender s }
      { letter with sender := s } where
  fresh := h.fresh
  message := h.message.congr rfl
  sender := fieldReads_setSender object.toMutableMail s
  recipients := recipients_congr h.recipients rfl
  tail := h.tail.congr rfl
  headers := h.headers
  counted := h.counted
  account := h.account
  payload := h.payload
  peer := h.peer
  cgroups := h.cgroups

theorem setAccount (h : object.Shows letter) (a : Bytes) :
    Shows { object with account := a } { letter with account := a } where
  fresh := h.fresh
  message := h.message.congr rfl
  sender := h.sender.congr rfl rfl
  recipients := recipients_congr h.recipients rfl
  tail := h.tail.congr rfl
  headers := h.headers
  counted := h.counted
  account := rfl
  payload := h.payload
  peer := h.peer
  cgroups := h.cgroups

theorem remember (h : object.Shows letter) (key path : Bytes) :
    Shows { object with fenv := (key, path) :: object.fenv }
      { letter with cgroups := (key, path) :: letter.cgroups } :=
  { h with cgroups := congrArg ((key, path) :: ·) h.cgroups }

end LuaMail.Shows

end Edits

section Respond

variable {lib : Libcommon} {object : LuaMail} {letter : Letter}

theorem Letter.argument_bind {β : Type} (index : ℕ) (v : LuaValue)
    (f : Bytes → Except LuaError β) : (Letter.argument index v >>= f) =
      match v.text with
      | some s => f s
      | none => .error (.expectedString index) := by
  unfold Letter.argument
  cases v.text <;> rfl

namespace LuaMail

theorem insertHeader_eq (mail : IncomingMail) (args : List LuaValue) :
    IncomingMail.insertHeader args mail =
      match Letter.headerOf args with
      | .error e => .error e mail
      | .ok (n, v) =>
        if mail.stale = false then
          if mail.nHeaders < IncomingMail.maxHeaders then
            .ok () { mail with
              nHeaders := mail.nHeaders + 1
              toMutableMail := mail.toMutableMail.insertHeader n v }
          else .error (.message (ascii "Too many headers")) mail
        else .error Letter.stale mail := by
  match args with
  | [] => rfl
  | [_] => rfl
  | _ :: _ :: _ :: _ => rfl
  | [name, value] =>
    simp only [IncomingMail.insertHeader, checkString_bind, check_bind, checkStale_bind, get_bind,
      modify_bind, modify_apply, Letter.headerOf, Letter.argument_bind]
    cases name.text with
    | none => rfl
    | some n =>
      by_cases validName : IncomingMail.isValidHeaderName n
      swap
      · simp only [validName]
        rfl
      cases value.text with
      | none => simp only [validName, if_true]
      | some v =>
        by_cases validValue : IncomingMail.isValidHeaderValue v <;>
          simp only [validName, validValue, if_true] <;> rfl

def assigned (mail : IncomingMail) : Letter.Assignment → IncomingMail
  | .sender s => { mail with toMutableMail := mail.setSender s }
  | .account a => { mail with account := a }

theorem newIndex_eq (mail : IncomingMail) (name value : LuaValue) :
    IncomingMail.newIndex lib name value mail =
      if mail.stale = false then
        match Letter.assignmentOf lib name value with
        | .error e => .error e mail
        | .ok assignment => .ok () (assigned mail assignment)
      else .error Letter.stale mail := by
  simp only [IncomingMail.newIndex, checkStale_bind, checkString_bind]
  by_cases fresh : mail.stale = false
  swap
  · rw [if_neg fresh, if_neg fresh]
    rfl
  rw [if_pos fresh, if_pos fresh]
  simp only [Letter.assignmentOf, Letter.argument_bind]
  cases name.text with
  | none => rfl
  | some n =>
    dsimp only
    by_cases isSender : cString n = ascii "sender"
    · simp only [isSender, if_true, checkString_bind, check_bind, modify_apply]
      cases value.text with
      | none => rfl
      | some s => by_cases valid : lib.verifyEmailAddress s <;> simp only [valid, if_true] <;> rfl
    rw [if_neg isSender, if_neg isSender]
    by_cases isAccount : cString n = ascii "account"
    swap
    · rw [if_neg isAccount, if_neg isAccount]
      rfl
    rw [if_pos isAccount, if_pos isAccount]
    by_cases isNil : value = .nil
    · rw [if_pos isNil, if_pos isNil]
      rfl
    rw [if_neg isNil, if_neg isNil]
    simp only [checkString_bind, check_bind, modify_apply]
    cases value.text with
    | none => rfl
    | some a =>
      by_cases empty : a = [] <;>
        simp only [empty, if_true, ne_eq, not_true, not_false_eq_true] <;> rfl

/-- An answer of the object is that of the letter, and so is what is behind it. -/
def Agrees (answer : Except LuaError LuaResult × LuaMail)
    (answer' : Except LuaError LuaResult × Option Letter) : Prop :=
  answer.1 = answer'.1 ∧ answer.2.Shown answer'.2

theorem close_agrees (object : LuaMail) (letter : Option Letter) :
    Agrees (respond lib .close object) (Letter.respond lib .close letter) := by
  cases letter <;> exact ⟨rfl, rfl⟩

theorem insertHeader_agrees {letter : Option Letter} (h : object.Shown letter)
    (args : List LuaValue) :
    Agrees (respond lib (.call (.insertHeader args)) object)
      (Letter.respond lib (.call (.insertHeader args)) letter) := by
  simp only [respond, code, onMail, MailCall.code, insertHeader_eq]
  cases letter with
  | none =>
    have closed : object.stale = true := h
    simp only [Letter.respond, closed]
    cases Letter.headerOf args <;> exact ⟨rfl, h⟩
  | some letter =>
    have shows : object.Shows letter := h
    simp only [Letter.respond, Letter.call, shows.fresh, if_true, shows.counted, Letter.insert]
    cases Letter.headerOf args with
    | error e => exact ⟨rfl, h⟩
    | ok header =>
      obtain ⟨n, v⟩ := header
      by_cases room : letter.headers.length < IncomingMail.maxHeaders
      · simp only [bind, Except.bind, room, if_true]
        have more := shows.insertHeader n v
        simp only [shows.fresh, shows.counted] at more
        exact ⟨rfl, more⟩
      · simp only [bind, Except.bind, room, if_false]
        exact ⟨rfl, h⟩

theorem newIndex_agrees {letter : Option Letter} (h : object.Shown letter)
    (name value : LuaValue) :
    Agrees (respond lib (.call (.newIndex name value)) object)
      (Letter.respond lib (.call (.newIndex name value)) letter) := by
  simp only [respond, code, onMail, MailCall.code, newIndex_eq]
  cases letter with
  | none =>
    have closed : object.stale = true := h
    simp only [closed]
    exact ⟨rfl, h⟩
  | some letter =>
    have shows : object.Shows letter := h
    simp only [Letter.respond, Letter.call, shows.fresh, if_true]
    cases Letter.assignmentOf lib name value with
    | error e => exact ⟨rfl, h⟩
    | ok assignment =>
      cases assignment with
      | sender s => exact ⟨rfl, shows.setSender s⟩
      | account a => exact ⟨rfl, shows.setAccount a⟩

def Answers (call : Call) (object : LuaMail)
    (answer : Except LuaError LuaResult × Option Letter) : Prop :=
  match call object with
  | .ok result object => answer.1 = .ok result ∧ object.Shown answer.2
  | .error e object => answer.1 = .error e ∧ object.Shown answer.2

theorem Answers.agrees {access : Access} {answer : Except LuaError LuaResult × Option Letter}
    (h : Answers (code lib access) object answer) : Agrees (respond lib access object) answer := by
  unfold Answers at h
  unfold respond
  split at h
  · exact ⟨h.1.symm, h.2⟩
  · exact ⟨h.1.symm, h.2⟩

section Rules

variable {answer answer' : Except LuaError LuaResult × Option Letter}

theorem answers_ite {p : Prop} [Decidable p] {call call' : Call}
    (yes : p → Answers call object answer) (no : ¬ p → Answers call' object answer') :
    Answers (if p then call else call') object (if p then answer else answer') := by
  by_cases h : p
  · rw [if_pos h, if_pos h]
    exact yes h
  · rw [if_neg h, if_neg h]
    exact no h

theorem answers_get {f : LuaMail → Call} (h : Answers (f object) object answer) :
    Answers (get >>= f) object answer := h

theorem answers_credential {letter : Letter} (h : object.Shows letter)
    (number : ClientCred → ℤ) :
    Answers (credential number) object
      (.ok ((letter.peer.map fun cred => .integer (number cred)).getD .nothing), some letter) := by
  have peer := h.peer
  unfold Answers credential
  cases known : letter.peer <;> simp only [get_bind, peer, known] <;> exact ⟨rfl, h⟩

end Rules

theorem lookCgroup_answers {letter : Letter} (shows : object.Shows letter) (key : Bytes)
    (cgroupPath : Except LuaError Bytes) :
    Answers (match cgroupPath with
      | .error e => throw e
      | .ok path => do
        if path = [] then return .nothing
        modify fun mail => { mail with fenv := (key, path) :: mail.fenv }
        return .cgroup path) object (letter.lookCgroup key cgroupPath) := by
  cases cgroupPath with
  | error e => exact ⟨rfl, shows⟩
  | ok path =>
    cases path with
    | nil => exact ⟨rfl, shows⟩
    | cons b path => exact ⟨rfl, shows.remember key (b :: path)⟩

theorem look_answers {letter : Letter} (shows : object.Shows letter) (name : LuaValue)
    {key : Bytes} (text : name.text = some key) (cgroupPath : Except LuaError Bytes) :
    Answers (index cgroupPath [name]) object (letter.look key cgroupPath) := by
  simp only [Answers, index, checkString_bind, text, get_bind, check_bind, shows.fresh, if_true]
  rw [← Answers]
  refine answers_ite (fun _ => ⟨rfl, shows⟩) fun _ => answers_get ?_
  rw [shows.cgroups]
  cases letter.cgroups.lookup key with
  | some path => exact ⟨rfl, shows⟩
  | none =>
    dsimp only
    unfold Letter.property
    by_cases sender : cString key = ascii "sender"
    · rw [if_pos sender, if_pos sender]
      exact ⟨congrArg (Except.ok ∘ LuaResult.string) shows.sender.contents.symm, shows⟩
    rw [if_neg sender, if_neg sender]
    by_cases recipients : cString key = ascii "recipients"
    · rw [if_pos recipients, if_pos recipients]
      have texts := ReadsAs.map_contents shows.recipients
      exact ⟨congrArg (Except.ok ∘ LuaResult.table) texts.symm, shows⟩
    rw [if_neg recipients, if_neg recipients]
    by_cases pid : cString key = ascii "pid"
    · rw [if_pos pid, if_pos pid]
      exact answers_credential shows (·.pid.toInt)
    rw [if_neg pid, if_neg pid]
    by_cases uid : cString key = ascii "uid"
    · rw [if_pos uid, if_pos uid]
      exact answers_credential shows (·.uid.toNat)
    rw [if_neg uid, if_neg uid]
    by_cases gid : cString key = ascii "gid"
    · rw [if_pos gid, if_pos gid]
      exact answers_credential shows (·.gid.toNat)
    rw [if_neg gid, if_neg gid]
    exact answers_ite (fun _ => lookCgroup_answers shows key cgroupPath) fun _ => ⟨rfl, shows⟩

theorem index_agrees {letter : Option Letter} (h : object.Shown letter) (args : List LuaValue)
    (cgroupPath : Except LuaError Bytes) :
    Answers (index cgroupPath args) object
      (Letter.respond lib (.index args cgroupPath) letter) := by
  match args with
  | [] => exact ⟨rfl, h⟩
  | _ :: _ :: _ => exact ⟨rfl, h⟩
  | [name] =>
    simp only [Letter.respond, Letter.argument]
    cases text : name.text with
    | none =>
      simp only [Answers, index, checkString_bind, text]
      exact ⟨trivial, h⟩
    | some key =>
      cases letter with
      | some letter => exact look_answers h name text cgroupPath
      | none =>
        have closed : object.stale = true := h
        simp only [Answers, index, checkString_bind, text, get_bind, check_bind, closed]
        exact ⟨rfl, h⟩

theorem respond_agrees (access : Access) {letter : Option Letter} (h : object.Shown letter) :
    Agrees (respond lib access object) (Letter.respond lib access letter) := by
  cases access with
  | close => exact close_agrees object letter
  | index args cgroupPath =>
    have answers : Answers (code lib (.index args cgroupPath)) object
      (Letter.respond lib (.index args cgroupPath) letter) := index_agrees h args cgroupPath
    exact answers.agrees
  | call call =>
    cases call with
    | insertHeader args => exact insertHeader_agrees h args
    | newIndex name value => exact newIndex_agrees h name value

end LuaMail

end Respond

section Frame

variable {lib : Libcommon}

def Access.use : Access → Option MailUse
  | .call c => some (.call c)
  | .index _ _ => none
  | .close => some .close

namespace LuaMail

theorem keeps_credential (number : ClientCred → ℤ) :
    Keeps LuaMail.toIncomingMail (credential number) := by
  apply keeps_get.bind
  intro object
  split <;> exact keeps_pure _

theorem keeps_index (args : List LuaValue) (cgroupPath : Except LuaError Bytes) :
    Keeps LuaMail.toIncomingMail (index cgroupPath args) := by
  match args with
  | [] => exact keeps_throw _
  | _ :: _ :: _ => exact keeps_throw _
  | [name] =>
    have string : Keeps LuaMail.toIncomingMail
        (checkString 2 name : EStateM LuaError LuaMail Bytes) := by
      unfold checkString
      split
      · exact keeps_pure _
      · exact keeps_throw _
    apply string.bind
    intro key
    apply keeps_get.bind
    intro object
    apply (keeps_check _ _).bind
    intro _
    apply (keeps_pure _).ite
    apply keeps_get.bind
    intro object
    split
    · exact keeps_pure _
    apply (keeps_get.bind fun _ => keeps_pure _).ite
    apply (keeps_get.bind fun _ => keeps_pure _).ite
    apply (keeps_credential _).ite
    apply (keeps_credential _).ite
    apply (keeps_credential _).ite
    apply Keeps.ite _ (keeps_throw _)
    split
    · exact keeps_throw _
    · apply (keeps_pure _).ite
      refine (keeps_modify ?_).bind fun _ => keeps_pure _
      exact fun _ => rfl

/-- The mail after an access is the one that its use leaves. -/
theorem respond_mail (access : Access) (object : LuaMail) :
    (respond lib access object).2.toIncomingMail =
      access.use.toList.foldl (MailUse.after lib) object.toIncomingMail := by
  cases access with
  | call c =>
    simp only [respond, code, onMail, Access.use, Option.toList, List.foldl, MailUse.after]
    cases c.code lib object.toIncomingMail <;> rfl
  | close => rfl
  | index args cgroupPath =>
    have kept := keeps_index args cgroupPath object
    simp only [respond, code, Access.use, Option.toList, List.foldl]
    cases run : index cgroupPath args object <;> rw [run] at kept <;> exact kept

theorem session_mail (accesses : List Access) (object : LuaMail) :
    (session (respond lib) accesses object).2.toIncomingMail =
      (accesses.filterMap Access.use).foldl (MailUse.after lib) object.toIncomingMail := by
  induction accesses generalizing object with
  | nil => rfl
  | cons access accesses ih =>
    rw [session, ih, respond_mail]
    cases used : access.use <;> simp [used]

end LuaMail

end Frame

section Outside

variable {lib : Libcommon} {object : LuaMail} {letter : Letter}

/-- What is made of the object is made of the letter. -/
structure LuaMail.StandsFor (lib : Libcommon) (object : LuaMail) (letter : Letter) : Prop where
  request : ∃ bytes, relayed lib letter.peerAuth object.toMutableMail = .ok bytes ∧
    (bytes.length < sizeLimit → bytes = letter.request lib)
  document : (RawExecRelay.new object.toMutableMail
      (object.headerViews ++ receivedView lib letter.peerAuth)).written object.toMutableMail
        (receivedHeader lib letter.peerAuth) = letter.document lib
  datagram : ∀ a c message, QmqpRelayConnection.datagram lib a c object.toMutableMail message =
    letter.datagram lib a c.startTime
      (QmqpRelayConnection.State.relaying.value ≤ c.state.value) message

theorem LuaMail.Shows.standsFor (h : object.Shows letter) : object.StandsFor lib letter where
  request := by
    obtain ⟨bytes, run, shape⟩ :=
      relayed_bytes lib letter.peerAuth h.message.field h.sender h.tail.field
    rw [h.headers] at shape
    exact ⟨bytes, run, shape⟩
  document := by
    rw [RawExecRelay.new_written letter.peerAuth h.message.field, h.headers]
    rfl
  datagram := by
    intro a c message
    have lengths : QmqpRelayConnection.headersSize object.toMutableMail =
        letter.lines.flatten.length % sizeLimit := by
      rw [QmqpRelayConnection.headersSize, h.headers, List.length_flatten]
    have log : QmqpRelayConnection.logMessage object.toMutableMail message =
        letter.logMessage message := by
      have texts := ReadsAs.map_contents h.recipients
      rw [QmqpRelayConnection.logMessage, Letter.logMessage, h.sender.contents, ← texts,
        List.map_map]
      rfl
    simp only [QmqpRelayConnection.datagram, Letter.datagram, log, lengths, h.payload, h.account,
      h.message.field.size, Nat.add_mod_mod]

def Letter.of (mail : MutableMail) (peer : Option ClientCred) : Letter where
  message := (mail.message.contents mail.memory).dropWhile isSpace
  sender := mail.sender.contents mail.memory
  recipients := mail.recipients.map (·.contents mail.memory)
  tail := mail.tail.contents mail.memory
  payloadLength := mail.buffer.bytes.length
  peer

theorem Letter.of_reads {mail : MutableMail} {m s t : Bytes} {rs : List Bytes}
    (reads : Reads mail.memory .buffer mail.toQmqpMail m s rs t) (peer : Option ClientCred) :
    Letter.of mail peer =
      { message := m.dropWhile isSpace, sender := s, recipients := rs, tail := t,
        payloadLength := mail.buffer.bytes.length, peer } := by
  obtain ⟨⟨vm, message, hm⟩, ⟨vs, sender, hs⟩, recipients, ⟨vt, tail, ht⟩⟩ := reads
  simp only [Letter.of, message, sender, tail, StringView.contents, hm.contents, hs.contents,
    ht.contents, ReadsAs.map_contents recipients]

theorem LuaMail.new_shows {payload : Buffer} {mail : MutableMail}
    (parsed : (MutableMail.new payload).parse lib = .ok (.success, mail))
    (peer : Option ClientCred) : (LuaMail.new lib mail peer).Shows (.of mail peer) := by
  obtain ⟨fresh, m, s, rs, t, -, -, reads⟩ := parse_success parsed
  rw [Letter.of_reads reads]
  obtain ⟨⟨vm, message, hm⟩, ⟨vs, sender, hs⟩, recipients, ⟨vt, tail, ht⟩⟩ := reads
  have stripped : (mail.stripMessage lib).message = some (lib.stripLeft mail.memory vm) := by
    rw [MutableMail.stripMessage, message, Option.map_some]
  constructor
  · rfl
  · exact ⟨_, stripped, readsAs_congr hm.stripLeft rfl⟩
  · have field : FieldReads (mail.stripMessage lib) mail.sender s := by
      rw [sender]
      exact hs.field rfl
    exact field
  · exact recipients_congr recipients rfl
  · exact ⟨vt, tail, readsAs_congr ht rfl⟩
  · exact congrArg MutableMail.headers fresh
  · rfl
  · exact congrArg MutableMail.account fresh
  · rfl
  · rfl
  · rfl

/-- No script can tell the object from the letter, whatever it calls, reads or
closes in whatever order; and what the connection makes of the mail afterwards
is what the letter says. -/
theorem mail_object_is_letter (lib : Libcommon) {payload : Buffer} {mail : MutableMail}
    (parsed : (MutableMail.new payload).parse lib = .ok (.success, mail))
    (peer : Option ClientCred) (accesses : List Access) :
    let object := session (LuaMail.respond lib) accesses (LuaMail.new lib mail peer)
    let letter := session (Letter.respond lib) accesses (some (Letter.of mail peer))
    object.1 = letter.1 ∧
      object.2.toIncomingMail = (accesses.filterMap Access.use).foldl (MailUse.after lib)
        (IncomingMail.received lib mail) ∧
      ∀ l, letter.2 = some l → object.2.StandsFor lib l := by
  intro object letter
  obtain ⟨answers, shown⟩ := session_rel
    (fun access o l shown => LuaMail.respond_agrees access shown) accesses
    (show (LuaMail.new lib mail peer).Shown (some (Letter.of mail peer)) from
      LuaMail.new_shows parsed peer)
  refine ⟨answers, LuaMail.session_mail accesses _, fun l eq => ?_⟩
  have shown' : object.2.Shown letter.2 := shown
  rw [eq] at shown'
  exact LuaMail.Shows.standsFor shown'

def sampleAccesses : List Access :=
  [.index [.string (ascii "cgroup")] (.ok (ascii "/user")),
    .call (.newIndex (.string (ascii "sender")) (.string (ascii "x@y"))),
    .call (.insertHeader [.string (ascii "A:"), .string []]),
    .index [.string (ascii "sender")] (.ok []),
    .index [.string (ascii "cgroup")] (.error (.message (ascii "No such process"))),
    .close,
    .index [.string (ascii "recipients")] (.ok [])]

set_option maxRecDepth 4000 in
theorem mail_object_is_letter_sample :
    (session (LuaMail.respond .reference) sampleAccesses
      (LuaMail.new .reference sampleMail none)).1 =
        [.ok (.cgroup (ascii "/user")), .ok .nothing,
          .error (.argument 2 (ascii "Illegal header name")), .ok (.string (ascii "x@y")),
          .ok (.cgroup (ascii "/user")), .ok .nothing, .error Letter.stale] := by
  have parsed : (MutableMail.new samplePayload).parse .reference = .ok (.success, sampleMail) := rfl
  rw [(mail_object_is_letter .reference parsed none sampleAccesses).1]
  rfl

end Outside

section Closed

variable {lib : Libcommon}

theorem Letter.respond_closed (access : Access) :
    (Letter.respond lib access none).2 = none ∧
      ((∃ result, (Letter.respond lib access none).1 = .ok result) → access = .close) := by
  cases access with
  | close => exact ⟨rfl, fun _ => rfl⟩
  | call c =>
    cases c with
    | newIndex name value => exact ⟨rfl, nofun⟩
    | insertHeader args =>
      simp only [Letter.respond]
      cases Letter.headerOf args <;> exact ⟨rfl, nofun⟩
  | index args cgroupPath =>
    match args with
    | [] => exact ⟨rfl, nofun⟩
    | _ :: _ :: _ => exact ⟨rfl, nofun⟩
    | [name] =>
      simp only [Letter.respond]
      cases Letter.argument 2 name <;> exact ⟨rfl, nofun⟩

theorem Letter.session_closed (accesses : List Access) :
    (session (Letter.respond lib) accesses none).2 = none ∧
      List.Forall₂ (fun access answer => (∃ result, answer = .ok result) → access = .close)
        accesses (session (Letter.respond lib) accesses none).1 := by
  induction accesses with
  | nil => exact ⟨rfl, .nil⟩
  | cons access accesses ih =>
    obtain ⟨closed, refused⟩ := @Letter.respond_closed lib access
    simp only [session, closed]
    exact ⟨ih.1, .cons refused ih.2⟩

/-- Once a connection is gone, Lua code that has kept its mail object gets
nothing out of it any more: every access but `close` is an error. -/
theorem ended_mail_closed (lib : Libcommon) (logSocket : Bool) (startTime : ℤ)
    (peerAuth : SocketPeerAuth) (es : List (QmqpRelayConnection.Event × Answers))
    (peer : Option ClientCred) (fenv : List (Bytes × Bytes)) (accesses : List Access) :
    let w := Outcome.state (QmqpRelayConnection.submission lib logSocket startTime peerAuth es)
    w.connection = none → ∀ mail, w.mail = some mail →
      let kept : LuaMail := { toIncomingMail := mail, peer, fenv }
      (session (LuaMail.respond lib) accesses kept).2.stale = true ∧
        List.Forall₂ (fun access answer => (∃ result, answer = .ok result) → access = .close)
          accesses (session (LuaMail.respond lib) accesses kept).1 := by
  intro w gone mail has kept
  have shows := @QmqpRelayConnection.submission_shows lib logSocket startTime peerAuth es
  have stale : kept.stale = true := by
    cases o : QmqpRelayConnection.outline lib peerAuth es with
    | ended action response =>
      rw [o] at shows
      exact shows.2.2.2 mail has
    | waiting | deciding | relaying =>
      rw [o] at shows
      obtain ⟨c, alive, -⟩ := shows
      cases gone.symm.trans alive
  obtain ⟨answers, shown⟩ := session_rel
    (fun access o l shown => LuaMail.respond_agrees access shown) accesses
    (show kept.Shown none from stale)
  obtain ⟨closed, refused⟩ := @Letter.session_closed lib accesses
  rw [closed] at shown
  exact ⟨shown, answers ▸ refused⟩

set_option maxRecDepth 4000 in
theorem ended_mail_closed_sample : ∃ mail, QmqpRelayConnection.acceptedWorld.mail = some mail ∧
    (session (LuaMail.respond .reference) [.index [.string (ascii "sender")] (.ok [])]
      { toIncomingMail := mail, peer := none }).2.stale = true :=
  ⟨_, rfl, (ended_mail_closed .reference true 0 none QmqpRelayConnection.acceptance none []
    [.index [.string (ascii "sender")] (.ok [])] rfl _ rfl).1⟩

end Closed

end Qrelay
