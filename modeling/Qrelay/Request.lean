import Qrelay.LMail

/-! The bytes that go downstream: `AssembleHeaders` of Connection.cxx, the
request that BasicRelay.cxx builds, and the netstring that NetstringClient
wraps around it. The length prefixes are texts made once; the segments between
them are views, read when they are written. -/

namespace Qrelay
open Lib Lib.Decimal

structure PeerCred where
  pid : Int32
  uid : UInt32
  deriving DecidableEq, Repr

/-- `none` unless `HaveCred()`. -/
abbrev SocketPeerAuth := Option PeerCred

section Code

variable (lib : Libcommon)

def receivedLine (cred : PeerCred) : Bytes :=
  ascii "Received: from PID=" ++ lib.formatInteger cred.pid.toInt ++ ascii " UID=" ++
    lib.formatInteger cred.uid.toNat ++ ascii " with QMQP\r\n"

def receivedBufferSize : ℕ := 256

def assembleHeaders (peerAuth : SocketPeerAuth) (mail : MutableMail) :
    Except Fault (List (StringView Storage) × Bytes) :=
  match peerAuth with
  | none => pure (mail.headerViews, [])
  | some cred =>
    let line := receivedLine lib cred
    if line.length ≤ receivedBufferSize then
      pure (mail.headerViews ++ [some ⟨.receivedBuffer, 0, line.length⟩], line)
    else throw .outOfRange

/-- The part of a relay that holds the request; `client` is the header that
NetstringClient adds. -/
structure BasicRelay where
  generator : Bytes
  senderHeader : Bytes
  request : List (StringView Storage)
  client : Bytes := []
  deriving DecidableEq, Repr

namespace BasicRelay

def new (mail : MutableMail) (additionalHeaders : List (StringView Storage)) : BasicRelay :=
  let request := additionalHeaders ++ [mail.message]
  let (request, generator) := lib.netstringGenerator .generator .comma request
  let senderHeader := lib.netstringHeader mail.sender.size
  { generator, senderHeader,
    request := request ++ [some ⟨.senderHeader, 0, senderHeader.length⟩, mail.sender, mail.tail] }

/-- `client.Request(…, std::move(request))`. -/
def sendRequest (relay : BasicRelay) : BasicRelay :=
  let (request, client) := lib.netstringGenerator .client .comma relay.request
  { relay with request, client }

def memory (relay : BasicRelay) (mail : MutableMail) (receivedBuffer : Bytes) : Storage → Bytes
  | .receivedBuffer => receivedBuffer
  | .generator => relay.generator
  | .senderHeader => relay.senderHeader
  | .client => relay.client
  | .comma => [comma]
  | k => mail.memory k

def written (relay : BasicRelay) (mail : MutableMail) (receivedBuffer : Bytes) : Bytes :=
  relay.request.flatMap (·.contents (relay.memory mail receivedBuffer))

end BasicRelay

/-- The bytes sent downstream for a mail that is not edited any more. -/
def relayed (peerAuth : SocketPeerAuth) (mail : MutableMail) : Except Fault Bytes := do
  let (headers, receivedBuffer) ← assembleHeaders lib peerAuth mail
  let relay := (BasicRelay.new lib mail headers).sendRequest lib
  return relay.written mail receivedBuffer

end Code

section Received

variable {lib : Libcommon}

theorem formatInteger_length_le (n : ℤ) {k : ℕ} (positive : 0 < k) (h : n.natAbs < 10 ^ k) :
    (lib.formatInteger n).length ≤ k + 1 := by
  cases n with
  | ofNat n =>
    rw [Int.ofNat_eq_natCast, lib.formatInteger_natural]
    exact (numeral_length_le positive h).trans (Nat.le_succ k)
  | negSucc n =>
    have negative : Int.negSucc n = -((n : ℤ) + 1) := rfl
    have bound : (numeral (n + 1)).length ≤ k := numeral_length_le positive h
    rw [negative, lib.formatInteger_negative, List.length_append]
    have sign : (ascii "-").length = 1 := rfl
    omega

/-- The line fits its buffer for every process id and user id. -/
theorem receivedLine_length_le (cred : PeerCred) :
    (receivedLine lib cred).length ≤ receivedBufferSize := by
  have pid : (lib.formatInteger cred.pid.toInt).length ≤ 10 + 1 := by
    apply formatInteger_length_le _ (by decide)
    have low := cred.pid.le_toInt
    have high := cred.pid.toInt_lt
    omega
  have uid : (lib.formatInteger cred.uid.toNat).length ≤ 10 + 1 := by
    apply formatInteger_length_le _ (by decide)
    have high := cred.uid.toNat_lt
    omega
  have first : (ascii "Received: from PID=").length = 19 := rfl
  have second : (ascii " UID=").length = 5 := rfl
  have third : (ascii " with QMQP\r\n").length = 12 := rfl
  simp only [receivedLine, List.length_append, first, second, third, receivedBufferSize]
  omega

def receivedHeader (lib : Libcommon) : SocketPeerAuth → Bytes
  | none => []
  | some cred => receivedLine lib cred

def receivedView (lib : Libcommon) : SocketPeerAuth → List (StringView Storage)
  | none => []
  | some cred => [some ⟨.receivedBuffer, 0, (receivedLine lib cred).length⟩]

theorem assembleHeaders_eq (peerAuth : SocketPeerAuth) (mail : MutableMail) :
    assembleHeaders lib peerAuth mail =
      .ok (mail.headerViews ++ receivedView lib peerAuth, receivedHeader lib peerAuth) := by
  cases peerAuth with
  | none => simp [assembleHeaders, receivedView, receivedHeader, pure, Except.pure]
  | some cred => exact if_pos (receivedLine_length_le cred)

end Received

end Qrelay
