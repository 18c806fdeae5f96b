import Qrelay.MutableMail

/-! What Lua code can do to a mail: a call either fails and leaves the mail as
it was, or makes one edit. The accepted calls of a script determine the mail
that it leaves behind. -/

namespace Qrelay
open Lib Lib.Decimal

theorem checkString_bind {σ β : Type} (index : ℕ) (v : LuaValue)
    (f : Bytes → EStateM LuaError σ β) (s : σ) : (checkString index v >>= f) s =
      match v.text with
      | some t => f t s
      | none => .error (.expectedString index) s := by
  unfold checkString
  cases v.text <;> rfl

theorem checkStale_bind {β : Type} (f : Unit → EStateM LuaError IncomingMail β)
    (mail : IncomingMail) : (IncomingMail.checkStale >>= f) mail =
      if mail.stale = false then f () mail else .error (.message (ascii "Stale object")) mail := by
  rw [IncomingMail.checkStale, bind_assoc, get_bind, check_bind]

theorem FieldReads.congr {mail mail' : MutableMail} {field : StringView Storage}
    {x : Bytes} (h : FieldReads mail field x) (buffer : mail'.buffer = mail.buffer)
    (senderBuffer : mail'.senderBuffer = mail.senderBuffer) : FieldReads mail' field x := by
  obtain ⟨v, eq, place, within, reads⟩ := h
  have same : mail.memory v.storage = mail'.memory v.storage := by
    rcases place with place | place <;>
      simp only [place, MutableMail.memory, buffer, senderBuffer]
  refine ⟨v, eq, place, ?_, ?_⟩
  · simpa only [View.Within, same] using within
  · rw [← View.contents_congr same, reads]

inductive MailCall where
  | insertHeader (args : List LuaValue)
  | newIndex (name value : LuaValue)
  deriving DecidableEq, Repr

namespace MailCall

variable (lib : Libcommon)

def code : MailCall → IncomingMail.LuaCall
  | insertHeader args => IncomingMail.insertHeader args
  | newIndex name value => IncomingMail.newIndex lib name value

def line : MailCall → Option Bytes
  | insertHeader [name, value] => do return MutableMail.headerLine (← name.text) (← value.text)
  | _ => none

def sender : MailCall → Option Bytes
  | newIndex name value => do
    if cString (← name.text) = ascii "sender" then value.text else none
  | _ => none

inductive Edit (mail : IncomingMail) : MailCall → IncomingMail → Prop
  | header {name value : LuaValue} {n v : Bytes} : name.text = some n → value.text = some v →
      IncomingMail.isValidHeaderName n → IncomingMail.isValidHeaderValue v →
      mail.nHeaders < IncomingMail.maxHeaders → Edit mail (.insertHeader [name, value])
        { mail with
          nHeaders := mail.nHeaders + 1
          toMutableMail := mail.toMutableMail.insertHeader n v }
  | sender {name value : LuaValue} {n v : Bytes} : name.text = some n → value.text = some v →
      cString n = ascii "sender" → lib.verifyEmailAddress v →
      Edit mail (.newIndex name value) { mail with toMutableMail := mail.setSender v }
  | account {name value : LuaValue} {n : Bytes} (a : Bytes) : name.text = some n →
      cString n = ascii "account" → Edit mail (.newIndex name value) { mail with account := a }

variable {lib}

theorem insertHeader_outcome (mail : IncomingMail) (args : List LuaValue) :
    (∃ e, IncomingMail.insertHeader args mail = .error e mail) ∨
      ∃ mail', IncomingMail.insertHeader args mail = .ok () mail' ∧
        Edit lib mail (.insertHeader args) mail' := by
  match args with
  | [name, value] =>
    simp only [IncomingMail.insertHeader, checkString_bind, check_bind, checkStale_bind, get_bind,
      modify_bind, modify_apply]
    cases hn : name.text with
    | none => exact .inl ⟨_, rfl⟩
    | some n =>
      by_cases validName : IncomingMail.isValidHeaderName n
      swap
      · exact .inl ⟨_, if_neg validName⟩
      cases hv : value.text with
      | none => exact .inl ⟨_, if_pos validName⟩
      | some v =>
        by_cases accepted : IncomingMail.isValidHeaderValue v ∧ mail.stale = false ∧
            mail.nHeaders < IncomingMail.maxHeaders
        · obtain ⟨validValue, fresh, room⟩ := accepted
          refine .inr ⟨_, ?_, .header hn hv validName validValue room⟩
          simp only [validName, validValue, fresh, room, if_true]
        · left
          simp only [validName, if_true]
          split_ifs with validValue fresh room
          · exact absurd ⟨validValue, fresh, room⟩ accepted
          all_goals exact ⟨_, rfl⟩
  | [] => exact .inl ⟨_, rfl⟩
  | [_] => exact .inl ⟨_, rfl⟩
  | _ :: _ :: _ :: _ => exact .inl ⟨_, rfl⟩

theorem newIndex_outcome (mail : IncomingMail) (name value : LuaValue) :
    (∃ e, IncomingMail.newIndex lib name value mail = .error e mail) ∨
      ∃ mail', IncomingMail.newIndex lib name value mail = .ok () mail' ∧
        Edit lib mail (.newIndex name value) mail' := by
  simp only [IncomingMail.newIndex, checkStale_bind, checkString_bind]
  by_cases fresh : mail.stale = false
  swap
  · exact .inl ⟨_, if_neg fresh⟩
  simp only [fresh, if_true]
  cases hn : name.text with
  | none => exact .inl ⟨_, rfl⟩
  | some n =>
    dsimp only
    by_cases isSender : cString n = ascii "sender"
    · simp only [isSender, if_true, checkString_bind, check_bind, modify_apply]
      cases hv : value.text with
      | none => exact .inl ⟨_, rfl⟩
      | some v =>
        by_cases valid : lib.verifyEmailAddress v
        · exact .inr ⟨_, if_pos valid, .sender hn hv isSender valid⟩
        · exact .inl ⟨_, if_neg valid⟩
    by_cases isAccount : cString n = ascii "account"
    · rw [if_neg isSender, if_pos isAccount]
      by_cases isNil : value = .nil
      · rw [if_pos isNil]
        exact .inr ⟨_, rfl, .account [] hn isAccount⟩
      rw [if_neg isNil]
      simp only [checkString_bind, check_bind, modify_apply]
      cases hv : value.text with
      | none => exact .inl ⟨_, rfl⟩
      | some v =>
        by_cases nonempty : v ≠ []
        · exact .inr ⟨_, if_pos nonempty, .account v hn isAccount⟩
        · exact .inl ⟨_, if_neg nonempty⟩
    · rw [if_neg isSender, if_neg isAccount]
      exact .inl ⟨_, rfl⟩

/-- A call is rejected and changes nothing, or it is accepted and makes its edit. -/
theorem outcome (mail : IncomingMail) (call : MailCall) :
    (∃ e, call.code lib mail = .error e mail) ∨
      ∃ mail', call.code lib mail = .ok () mail' ∧ Edit lib mail call mail' := by
  cases call with
  | insertHeader args => exact insertHeader_outcome mail args
  | newIndex name value => exact newIndex_outcome mail name value

theorem newIndex_fresh {mail mail' : IncomingMail} {name value : LuaValue}
    (accepted : IncomingMail.newIndex lib name value mail = .ok () mail') : mail.stale = false := by
  by_contra stale
  rw [IncomingMail.newIndex, checkStale_bind, if_neg stale] at accepted
  cases accepted

theorem assigns_sender {mail mail' : IncomingMail} {call : MailCall}
    (accepted : call.code lib mail = .ok () mail')
    (changed : mail'.senderBuffer ≠ mail.senderBuffer) :
    mail.stale = false ∧
      ∃ s, call.sender = some s ∧ lib.verifyEmailAddress s ∧ s ≠ mail.senderBuffer := by
  rcases @outcome lib mail call with ⟨e, rejected⟩ | ⟨edited, run, edit⟩
  · rw [rejected] at accepted
    cases accepted
  rw [run] at accepted
  cases accepted
  cases edit with
  | header => exact absurd rfl changed
  | account => exact absurd rfl changed
  | @sender name value n v hn hv isSender valid =>
    refine ⟨newIndex_fresh run, v, ?_, valid, changed⟩
    rw [MailCall.sender, hn, Option.bind_eq_bind, Option.bind_some, if_pos isSender, hv]

theorem Edit.frame {mail mail' : IncomingMail} {call : MailCall} (h : Edit lib mail call mail') :
    mail'.buffer = mail.buffer ∧ mail'.message = mail.message ∧ mail'.tail = mail.tail ∧
      mail'.recipients = mail.recipients := by
  cases h <;> exact ⟨rfl, rfl, rfl, rfl⟩

theorem Edit.headers {mail mail' : IncomingMail} {call : MailCall} (h : Edit lib mail call mail') :
    mail'.headers = call.line.toList ++ mail.headers := by
  cases h with
  | header hn hv => simp [line, hn, hv, MutableMail.insertHeader]
  | sender => rfl
  | account => rfl

theorem Edit.sender_reads {mail mail' : IncomingMail} {call : MailCall}
    (h : Edit lib mail call mail') {s : Bytes}
    (reads : FieldReads mail.toMutableMail mail.sender s) :
    FieldReads mail'.toMutableMail mail'.sender (call.sender.getD s) := by
  cases h with
  | header => exact reads.congr rfl rfl
  | @sender _ _ _ v hn hv isSender =>
    have value : (v.drop 0).take v.length = v := by simp
    refine ⟨⟨.senderBuffer, 0, v.length⟩, rfl, .inr rfl, ?_, ?_⟩
    · simp [View.Within, MutableMail.memory, MutableMail.setSender]
    · simp [View.contents, MutableMail.memory, MutableMail.setSender, MailCall.sender, hn, hv,
        isSender]
  | @account name value _ a hn isAccount =>
    have other : MailCall.sender (.newIndex name value) = none := by
      simp only [MailCall.sender, hn, Option.bind_eq_bind, Option.bind_some, isAccount]
      rfl
    rw [other]
    exact reads.congr rfl rfl

theorem Edit.sender_valid {mail mail' : IncomingMail} {call : MailCall}
    (h : Edit lib mail call mail') {s : Bytes} (valid : lib.verifyEmailAddress s) :
    lib.verifyEmailAddress (call.sender.getD s) := by
  cases h with
  | header => exact valid
  | sender hn hv isSender validValue =>
    simpa only [MailCall.sender, hn, hv, Option.bind_eq_bind, Option.bind_some, isSender, if_true,
      Option.getD_some] using validValue
  | account a hn isAccount =>
    simpa [MailCall.sender, hn, isAccount, ascii] using valid

variable (lib)

/-- A script of calls that catches their errors: the mail it leaves behind,
and its accepted calls. -/
def script : List MailCall → IncomingMail → IncomingMail × List MailCall
  | [], mail => (mail, [])
  | call :: calls, mail =>
    match call.code lib mail with
    | .ok _ mail => ((script calls mail).1, call :: (script calls mail).2)
    | .error _ mail => script calls mail

def lines (accepted : List MailCall) : List Bytes := (accepted.filterMap line).reverse

def lastSender (accepted : List MailCall) : Option Bytes := (accepted.filterMap sender).getLast?

variable {lib}

theorem lines_cons (call : MailCall) (accepted : List MailCall) :
    lines (call :: accepted) = lines accepted ++ call.line.toList := by
  cases h : call.line <;> simp [lines, h]

theorem lastSender_cons (call : MailCall) (accepted : List MailCall) (s : Bytes) :
    (lastSender (call :: accepted)).getD s = (lastSender accepted).getD (call.sender.getD s) := by
  cases h : call.sender with
  | none => simp [lastSender, h]
  | some t =>
    simp only [lastSender, List.filterMap_cons, h, Option.getD_some]
    cases accepted.filterMap sender with
    | nil => rfl
    | cons u us => simp [List.getLast?_cons]

structure Edited (lib : Libcommon) (mail : IncomingMail) (accepted : List MailCall)
    (mail' : IncomingMail) : Prop where
  buffer : mail'.buffer = mail.buffer
  message : mail'.message = mail.message
  tail : mail'.tail = mail.tail
  recipients : mail'.recipients = mail.recipients
  headers : mail'.headers = lines accepted ++ mail.headers
  sender : ∀ s, FieldReads mail.toMutableMail mail.sender s →
    FieldReads mail'.toMutableMail mail'.sender ((lastSender accepted).getD s)
  senderValid : ∀ s, lib.verifyEmailAddress s →
    lib.verifyEmailAddress ((lastSender accepted).getD s)

theorem script_edited (calls : List MailCall) (mail : IncomingMail) :
    Edited lib mail (script lib calls mail).2 (script lib calls mail).1 := by
  induction calls generalizing mail with
  | nil => exact ⟨rfl, rfl, rfl, rfl, rfl, fun s h => h, fun s h => h⟩
  | cons call calls ih =>
    rcases @outcome lib mail call with ⟨e, rejected⟩ | ⟨mail₁, accepted, edit⟩
    · simp only [script, rejected]
      exact ih mail
    · simp only [script, accepted]
      obtain ⟨buffer, message, tail, recipients, headers, sender, valid⟩ := ih mail₁
      obtain ⟨buffer₁, message₁, tail₁, recipients₁⟩ := edit.frame
      refine ⟨buffer.trans buffer₁, message.trans message₁, tail.trans tail₁,
        recipients.trans recipients₁, ?_, fun s reads => ?_, fun s valid₀ => ?_⟩
      · rw [headers, edit.headers, lines_cons, List.append_assoc]
      · rw [lastSender_cons]
        exact sender _ (edit.sender_reads reads)
      · rw [lastSender_cons]
        exact valid _ (edit.sender_valid valid₀)

end MailCall

end Qrelay
