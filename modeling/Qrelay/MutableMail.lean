import Qrelay.QmqpClassification

/-! MutableMail.hxx and its edits by Lua code in LMail.cxx: the fields of the
mail are views into its own buffer, an edited sender is a view into another
one, and inserted headers are lines in front of the message. -/

namespace Qrelay
open Lib Lib.Decimal

/-- What the views of a submission point into: the mail's own buffers, the one
of the connection, and those of the relay. -/
inductive Storage where
  | buffer
  | senderBuffer
  /-- The header line that was inserted after `n` other ones. -/
  | header (n : ℕ)
  | receivedBuffer
  | generator
  | senderHeader
  | client
  | comma
  deriving DecidableEq, Repr

structure MutableMail extends QmqpMail Storage where
  buffer : Buffer
  senderBuffer : Bytes := []
  /-- Newest first. -/
  headers : List Bytes := []
  account : Bytes := []

namespace MutableMail

variable (lib : Libcommon) (mail : MutableMail)

def new (buffer : Buffer) : MutableMail := { buffer }

def memory : Storage → Bytes
  | .buffer => mail.buffer.bytes
  | .senderBuffer => mail.senderBuffer
  | .header n => mail.headers.reverse[n]?.getD []
  | _ => []

def parse : Except Fault (QmqpMail.ParseResult × MutableMail) := do
  let (result, parsed) ←
    QmqpMail.parse lib mail.memory (View.whole mail.memory .buffer) mail.toQmqpMail
  return (result, { mail with toQmqpMail := parsed })

def free : MutableMail := { buffer := ⟨[], by decide⟩ }

def setSender (sender : Bytes) : MutableMail :=
  { mail with senderBuffer := sender, sender := some ⟨.senderBuffer, 0, sender.length⟩ }

def headerLine (name value : Bytes) : Bytes := name ++ ascii ": " ++ value ++ ascii "\r\n"

def insertHeader (name value : Bytes) : MutableMail :=
  { mail with headers := headerLine name value :: mail.headers }

/-- `mail.message = StripLeft(mail.message)`, which `OnRequest` does. -/
def stripMessage : MutableMail :=
  { mail with message := mail.message.map (lib.stripLeft mail.memory) }

def headerViews : List (StringView Storage) :=
  (List.range mail.headers.length).reverse.map fun n => some (View.whole mail.memory (.header n))

end MutableMail

def freshMemory (payload : Buffer) : Memory Storage where
  bytes := (MutableMail.new payload).memory
  size_lt k := by
    cases k with
    | buffer => exact payload.size_lt
    | _ => exact Nat.two_pow_pos 64

theorem MutableMail.parse_total (lib : Libcommon) (payload : Buffer) :
    ∃ result mail, (MutableMail.new payload).parse lib = .ok (result, mail) := by
  obtain ⟨result, parsed, run, -⟩ := @QmqpMail.parse_decided lib Storage (freshMemory payload) _
    (View.within_whole _)
  have run' : QmqpMail.parse lib (MutableMail.new payload).memory
      (View.whole (MutableMail.new payload).memory .buffer) {} = .ok (result, parsed) := run
  simp only [MutableMail.new] at run'
  simp only [MutableMail.parse, MutableMail.new, bind, Except.bind, run']
  exact ⟨_, _, rfl⟩

/-- A field of the mail is a view into one of the mail's two buffers that reads as `x`. -/
def FieldReads (mail : MutableMail) (field : StringView Storage) (x : Bytes) : Prop :=
  ∃ v, field = some v ∧ (v.storage = .buffer ∨ v.storage = .senderBuffer) ∧
    v.Within mail.memory ∧ v.contents mail.memory = x

/-- An argument of a Lua call. -/
inductive LuaValue where
  | nil
  | string (s : Bytes)
  /-- A number, with the string that Lua converts it to. -/
  | number (text : Bytes)
  | other
  deriving DecidableEq, Repr

inductive LuaError where
  | message (text : Bytes)
  /-- `luaL_argerror`. -/
  | argument (index : ℕ) (text : Bytes)
  /-- The argument error for a value that is no string. -/
  | expectedString (index : ℕ)
  deriving DecidableEq, Repr

def LuaValue.text : LuaValue → Option Bytes
  | .string s => some s
  | .number text => some text
  | _ => none

def checkString {σ : Type} (index : ℕ) (v : LuaValue) : EStateM LuaError σ Bytes :=
  match v.text with
  | some s => pure s
  | none => throw (.expectedString index)

/-- A Lua string as `strcmp` sees it. -/
def cString (s : Bytes) : Bytes := s.takeWhile (· ≠ 0)

structure IncomingMail extends MutableMail where
  /-- `auto_close` has been cleared. -/
  stale : Bool := false
  nHeaders : ℕ := 0

namespace IncomingMail

def maxHeaders : ℕ := 16

def isValidHeaderNameChar (ch : UInt8) : Bool := 33 ≤ ch && ch ≤ 126 && ch ≠ colon

def isValidHeaderName (s : Bytes) : Bool := s ≠ [] && s.all isValidHeaderNameChar

def isValidHeaderValueChar (ch : UInt8) : Bool := 32 ≤ ch && ch ≤ 126

def isValidHeaderValue (s : Bytes) : Bool := s.all isValidHeaderValueChar

/-- A C function called by Lua code; a Lua error keeps the mail as it is by then. -/
abbrev LuaCall := EStateM LuaError IncomingMail Unit

def checkStale : LuaCall := do
  check ((← get).stale = false) (.message (ascii "Stale object"))

/-- `InsertHeader(lua_State *)`, called on the mail itself with more arguments. -/
def insertHeader : List LuaValue → LuaCall
  | [name, value] => do
    let name ← checkString 2 name
    check (isValidHeaderName name) (.argument 2 (ascii "Illegal header name"))
    let value ← checkString 3 value
    check (isValidHeaderValue value) (.argument 2 (ascii "Illegal header value"))
    checkStale
    check ((← get).nHeaders < maxHeaders) (.message (ascii "Too many headers"))
    modify fun mail => { mail with nHeaders := mail.nHeaders + 1 }
    modify fun mail => { mail with toMutableMail := mail.toMutableMail.insertHeader name value }
  | _ => throw (.message (ascii "Invalid parameters"))

def newIndex (lib : Libcommon) (name value : LuaValue) : LuaCall := do
  checkStale
  let name ← checkString 2 name
  if cString name = ascii "sender" then
    let newValue ← checkString 3 value
    check (lib.verifyEmailAddress newValue) (.argument 3 (ascii "Malformed email address"))
    modify fun mail => { mail with toMutableMail := mail.setSender newValue }
  else if cString name = ascii "account" then
    if value = .nil then
      modify fun mail => { mail with account := [] }
    else
      let newValue ← checkString 3 value
      check (newValue ≠ []) (.argument 3 (ascii "Empty string not allowed"))
      modify fun mail => { mail with account := newValue }
  else
    throw (.message (ascii "Cannot change this attribute"))

def close : LuaCall := do
  modify fun mail => { mail with stale := true }
  modify fun mail => { mail with toMutableMail := MutableMail.free }

end IncomingMail

end Qrelay
