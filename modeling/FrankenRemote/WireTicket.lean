import FrankenRemote.WireInput

/-! Host-issued input tickets, on the reliable feedback stream. There are three layouts of one
kind; which one is used was selected before, and the length of a record never selects it. -/
namespace FrankenRemote.Wire

open Bytes Input

/-- `MAX_TICKET_LIFETIME_US`. -/
def maxTicketLifetime : ℕ := 1500000

/-- `MAX_LEASE_LIFETIME_US`. -/
def maxLeaseLifetime : ℕ := 3000000

structure Ticket where
  credentials : InputCredentials
  sequence : ℕ
  issuedAt : ℕ
  expiresAt : ℕ
  deriving DecidableEq

/-- A ticket with the host's authority deadline at its issue. -/
structure AuthorityTicket where
  ticket : Ticket
  authorityUntil : ℕ
  deriving DecidableEq

/-- A ticket that also acknowledges the latest applied positive presentation report. -/
structure ReadinessTicket where
  authority : AuthorityTicket
  presentedSequence : ℕ
  deriving DecidableEq

/-- `INPUT_TICKET_BYTES - HEADER_BYTES`. -/
def inputTicketPayload : ℕ := 104

def authorityTicketPayload : ℕ := inputTicketPayload+8

def readinessTicketPayload : ℕ := authorityTicketPayload+8

/-- `role`. -/
def ticketRole (direction : InputDirection) (delivery : InputDelivery) : Except WireError Unit :=
  if direction ≠ .hostToViewer then .error .wrongRole
  else if delivery ≠ .reliable then .error .wrongChannel
  else .ok ()

/-- `until.checked_sub(from)` is in `1..=bound`. -/
def Lifetime (bound start until_ : ℕ) : Prop := start < until_ ∧ until_ - start ≤ bound

instance (bound start until_ : ℕ) : Decidable (Lifetime bound start until_) :=
  inferInstanceAs (Decidable (_ ∧ _))

namespace Ticket

def valid (t : Ticket) (channel : ℕ) : Except WireError Unit :=
  if channel = 0 ∨ t.credentials.session.raw = 0 ∨ t.credentials.lease.raw = 0 ∨
      t.credentials.ticket.raw = 0 then .error .invalidBinding
  else if Lifetime maxTicketLifetime t.issuedAt t.expiresAt then .ok ()
  else .error .invalidValue

/-- `read_body`. -/
def fields : Reader Ticket := do
  let credentials ← inputCredentials
  let sequence ← Reader.u64
  let issuedAt ← Reader.u64
  let expiresAt ← Reader.u64
  pure ⟨credentials,sequence,issuedAt,expiresAt⟩

/-- `write_body`. -/
def body (t : Ticket) : List Byte :=
  encodeCredentials t.credentials ++ beBytes 8 t.sequence ++ beBytes 8 t.issuedAt ++
    beBytes 8 t.expiresAt

end Ticket

namespace AuthorityTicket

def valid (t : AuthorityTicket) (channel : ℕ) : Except WireError Unit := do
  t.ticket.valid channel
  if t.authorityUntil < t.ticket.expiresAt ∨
      ¬Lifetime maxLeaseLifetime t.ticket.issuedAt t.authorityUntil then
    .error .invalidValue
  else .ok ()

def fields : Reader AuthorityTicket := do
  let ticket ← Ticket.fields
  let authorityUntil ← Reader.u64
  pure ⟨ticket,authorityUntil⟩

def body (t : AuthorityTicket) : List Byte := t.ticket.body ++ beBytes 8 t.authorityUntil

end AuthorityTicket

namespace ReadinessTicket

def valid (t : ReadinessTicket) (channel : ℕ) : Except WireError Unit := do
  t.authority.valid channel
  if t.presentedSequence = 0 then .error .invalidValue
  else .ok ()

def fields : Reader ReadinessTicket := do
  let authority ← AuthorityTicket.fields
  let presentedSequence ← Reader.u64
  pure ⟨authority,presentedSequence⟩

def body (t : ReadinessTicket) : List Byte := t.authority.body ++ beBytes 8 t.presentedSequence

end ReadinessTicket

/-! Records. -/

/-- What the three layouts share. -/
def decodeTicketRecord {α : Type} (fields : Reader α) (valid : α → ℕ → Except WireError Unit)
    (bytes : List Byte) (limits : ProtocolLimits) (channel : ℕ) : Except WireError α := do
  let record ← Record.decodeBounded bytes limits.maxControlMessageBytes channel none
  let ticket ← record.read .inputTicket fields
  valid ticket channel
  .ok ticket

def encodeTicketRecord (payload : ℕ) (valid : Except WireError Unit) (body : List Byte) (room : ℕ)
    (limits : ProtocolLimits) (channel : ℕ) (direction : InputDirection)
    (delivery : InputDelivery) : Except WireError (List Byte) := do
  ticketRole direction delivery
  valid
  encodeBounded room limits.maxControlMessageBytes channel .inputTicket payload body

/-- `decode`. -/
def decodeTicket (bytes : List Byte) (limits : ProtocolLimits) (channel : ℕ)
    (direction : InputDirection) (delivery : InputDelivery) : Except WireError Ticket := do
  ticketRole direction delivery
  decodeTicketRecord Ticket.fields Ticket.valid bytes limits channel

/-- `encode`. -/
def encodeTicket (t : Ticket) (room : ℕ) (limits : ProtocolLimits) (channel : ℕ)
    (direction : InputDirection) (delivery : InputDelivery) : Except WireError (List Byte) :=
  encodeTicketRecord inputTicketPayload (t.valid channel) t.body room limits channel
    direction delivery

def decodeAuthority (bytes : List Byte) (limits : ProtocolLimits) (channel : ℕ)
    (direction : InputDirection) (delivery : InputDelivery) : Except WireError AuthorityTicket := do
  ticketRole direction delivery
  decodeTicketRecord AuthorityTicket.fields AuthorityTicket.valid bytes limits channel

def encodeAuthority (t : AuthorityTicket) (room : ℕ) (limits : ProtocolLimits) (channel : ℕ)
    (direction : InputDirection) (delivery : InputDelivery) : Except WireError (List Byte) :=
  encodeTicketRecord authorityTicketPayload (t.valid channel) t.body room limits channel
    direction delivery

/-- The one layout with a fixed length, so extensions are refused too. -/
def decodeReadiness (bytes : List Byte) (limits : ProtocolLimits) (channel : ℕ)
    (direction : InputDirection) (delivery : InputDelivery) : Except WireError ReadinessTicket := do
  ticketRole direction delivery
  if bytes.length < headerBytes+readinessTicketPayload then .error .truncated
  else if headerBytes+readinessTicketPayload < bytes.length then .error .trailingBytes
  else decodeTicketRecord ReadinessTicket.fields ReadinessTicket.valid bytes limits channel

def encodeReadiness (t : ReadinessTicket) (room : ℕ) (limits : ProtocolLimits) (channel : ℕ)
    (direction : InputDirection) (delivery : InputDelivery) : Except WireError (List Byte) :=
  encodeTicketRecord readinessTicketPayload (t.valid channel) t.body room limits channel
    direction delivery

end FrankenRemote.Wire
