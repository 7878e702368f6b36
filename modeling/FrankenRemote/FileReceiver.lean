import FrankenRemote.FileStaging
import FrankenRemote.InputSession
import FrankenRemote.TokenBucket

/-! File receipt under an original controller. Every call samples the local clock, the permission
and the authority again; one failed sample closes the lane for good. -/
namespace FrankenRemote.Files

open Bytes Procedure

/-! Objects in custody, as the receiver uses them. -/

inductive PendingObject (M : Type)
  | file (p : PendingFile M)
  | directory (p : PendingDirectory)

/-- The answers while an object is verified. -/
structure VerifyCalls where
  sync : ℕ → Call
  fsync : ℕ → Call

namespace PendingObject

variable {M : Type} (d : Digests)

def receivedBytes : PendingObject M → ℕ
  | .file p => p.received
  | .directory p => p.received

def writeEntry (index offset : ℕ) (bytes : List Byte) (write : Call) :
    PendingObject M → Except FileError Unit × PendingObject M
  | .file p =>
    if index = 0 then
      ((exec (writeChunk offset bytes write) p).1,.file (exec (writeChunk offset bytes write) p).2)
    else (.error .invalidChunk,.file p)
  | .directory p =>
    ((exec (Files.writeEntry index offset bytes write) p).1,
      .directory (exec (Files.writeEntry index offset bytes write) p).2)

def verify (fs : VerifyCalls) : PendingObject M → Except FileError Unit × PendingObject M
  | .file p => ((exec (verifyFile d (fs.sync 0)) p).1,.file (exec (verifyFile d (fs.sync 0)) p).2)
  | .directory p =>
    ((exec (verifyDirectory d fs.sync fs.fsync) p).1,
      .directory (exec (verifyDirectory d fs.sync fs.fsync) p).2)

def publish (rename : ℕ → Call) (fsync : Call) : PendingObject M → Except FileError Publication
  | .file p => (exec (publishNamed (fileCustody M) rename fsync)
    p).1.map PublishedObject.publication
  | .directory p => (exec (publishNamed treeCustody rename fsync)
    p).1.map PublishedObject.publication

def cancel (unlink : Place → Call) : PendingObject M → Except FileError Unit
  | .file p => (exec (cleanup (fileCustody M) unlink) p).1
  | .directory p => (exec (cleanup treeCustody unlink) p).1

end PendingObject

def DirectoryManifest.metadataBytes {M : Type} (m : DirectoryManifest M) : ℕ :=
  (m.entries.map fun e => byteLength e.relPath + 128 + if e.metadata.isSome then 64 else 0).sum +
    if m.entries.any fun e => e.metadata.isSome then 64 else 0

def Expected.metadataBytes {M : Type} : Expected M → ℕ
  | .directory m => m.metadataBytes
  | _ => 0

/-! The lane. -/

def recordCost : ℕ := 128

def micro : ℕ := 1000000

structure FileBinding where
  session : ℕ
  lease : ℕ
  deriving DecidableEq

structure VerifiedOffer (M : Type) where
  binding : FileBinding
  id : ℕ
  name : Text
  size : ℕ
  expected : Expected M

structure ReceivePolicy where
  bytesPerSecond : ℕ
  burstBytes : ℕ
  transferLifetime : HostDuration
  maxSessionBytes : ℕ
  maxSessionTransfers : ℕ
  deriving DecidableEq

inductive ReceiveError
  | protocol | unknownEffect | policy | permission | wrongBinding | sequence | busy |
      noTransfer | rateLimited
  | quota | clock | expired | closed
  | authority (refusal : Input.Refusal)
  | storage (error : FileError)

def ReceivePolicy.validate (p : ReceivePolicy) : Except ReceiveError ReceivePolicy :=
  if p.bytesPerSecond = 0 ∨
      ¬(maxChunkBytes+recordCost ≤ p.burstBytes ∧ p.burstBytes ≤ 4*(maxChunkBytes+recordCost)) ∨
      p.transferLifetime = 0 ∨ 3600000000 < p.transferLifetime ∨ p.maxSessionBytes = 0 ∨
      p.maxSessionTransfers = 0 then .error .policy
  else .ok p

structure FileProgress where
  id : ℕ
  stagedBytes : ℕ
  totalBytes : ℕ
  deriving DecidableEq

structure FileReceipt where
  id : ℕ
  bytes : ℕ
  publication : Publication
  deriving DecidableEq

structure FileUsage where
  transfers : ℕ
  declaredBytes : ℕ
  deriving DecidableEq

structure ActiveTransfer (M : Type) where
  id : ℕ
  size : ℕ
  deadline : HostInstant
  file : PendingObject M

def ActiveTransfer.progress {M : Type} (a : ActiveTransfer M) : FileProgress :=
  ⟨a.id,a.file.receivedBytes,a.size⟩

/-- What one check reads: the clock, the permission, and the authority's deadline at that time. -/
structure Sample where
  now : HostInstant
  approved : Bool
  authority : Except Input.Refusal HostInstant

/-- The history of a lane. -/
inductive LaneAction
  /-- A check passed, after one at `since`. -/
  | passed (s : Sample) (since : HostInstant)
  /-- So many bytes were charged, of so many microbytes. -/
  | charged (bytes : ℕ) (time : HostInstant) (tokens : ℕ)
  | began (id : ℕ) (time : HostInstant) (size : ℕ)
  /-- The object was handed to publication. -/
  | published (id : ℕ)

structure HostReceiver (M : Type) where
  binding : FileBinding
  policy : ReceivePolicy
  usage : FileUsage
  lastTime : HostInstant
  tokens : ℕ
  floor : Option ℕ
  active : Option (ActiveTransfer M)
  closed : Bool
  log : List LaneAction

inductive LaneInput (M : Type)
  /-- `begin_verified` with its two samples and the answer of `begin_object`. -/
  | begin (offer : VerifiedOffer M) (first second : Sample)
      (opened : Except FileError (PendingObject M))
  | writeEntry (binding : FileBinding) (id index offset : ℕ) (bytes : List Byte)
      (first second : Sample) (write : Call)
  | complete (binding : FileBinding) (id : ℕ) (first second : Sample) (fs : VerifyCalls)
      (rename : ℕ → Call) (fsync : Call)
  | service (s : Sample)
  | cancel (binding : FileBinding) (id : ℕ) (unlink : Place → Call)
  | close (unlink : Place → Call)

inductive LaneReply
  | progress (progress : FileProgress)
  | receipt (receipt : FileReceipt)
  | done
  | refused (error : ReceiveError)

namespace HostReceiver

variable {M : Type} (env : Portability M) (d : Digests)

/-- The first reason against a sample, in the order of the tests. -/
def objection (r : HostReceiver M) (s : Sample) : Option ReceiveError :=
  if s.now < r.lastTime then some .clock
  else if ¬s.approved then some .permission
  else
    match s.authority with
    | .error e => some (.authority e)
    | .ok _ => if r.active.any fun a => a.deadline ≤ s.now then some .expired else none

def check (s : Sample) : Proc (HostReceiver M) ReceiveError Unit := do
  let r ← get
  refuseIf r.closed .closed
  match r.objection s with
  | some e =>
    modify fun r => {r with closed := true}
    throw e
  | none =>
    modify fun r =>
      {r with
        tokens := TokenBucket.refilled (micro*r.policy.burstBytes) r.policy.bytesPerSecond r.tokens
          (s.now-r.lastTime)
        lastTime := s.now
        log := r.log ++ [.passed s r.lastTime]}

def charge (bytes : ℕ) : Proc (HostReceiver M) ReceiveError Unit := do
  let r ← get
  refuseIf (r.tokens < micro*bytes) .rateLimited
  modify fun r => {r with
    tokens := r.tokens-micro*bytes, log := r.log ++ [.charged bytes r.lastTime r.tokens]}

def bindingCheck (binding : FileBinding) : Proc (HostReceiver M) ReceiveError Unit := do
  let r ← get
  refuseIf (binding ≠ r.binding) .wrongBinding

/-- `active_check`, and the transfer that it has found. -/
def activeCheck (id : ℕ) : Proc (HostReceiver M) ReceiveError (ActiveTransfer M) := do
  let r ← get
  okOr (r.active.filter fun a => a.id = id) .noTransfer

def takeActive : Proc (HostReceiver M) ReceiveError Unit := modify fun r => {r with active := none}

/-- A check whose failure also drops the transfer. -/
def checkOrDrop (s : Sample) : Proc (HostReceiver M) ReceiveError Unit :=
  tryCatch (check s) fun e => do
    takeActive
    throw e

def fresh (binding : FileBinding) (policy : ReceivePolicy) (now : HostInstant) : HostReceiver M :=
  ⟨binding,policy,⟨0,0⟩,now,micro*policy.burstBytes,none,none,false,[]⟩

def withAuthority (binding : FileBinding) (policy : ReceivePolicy) (s : Sample) :
    Except ReceiveError (HostReceiver M) := do
  let policy ← policy.validate
  match exec (check s) (fresh binding policy s.now) with
  | (.ok _,r) => .ok r
  | (.error e,_) => .error e

def beginVerified (offer : VerifiedOffer M) (first second : Sample)
    (opened : Except FileError (PendingObject M)) :
    Proc (HostReceiver M) ReceiveError FileProgress := do
  bindingCheck offer.binding
  check first
  let r ← get
  refuseIf r.active.isSome .busy
  refuseIf (∃ floor ∈ r.floor, offer.id ≤ floor) .sequence
  ofResult ((validateName env offer.name).mapError .storage)
  let declaredBytes ← okOr (checkedAdd r.usage.declaredBytes offer.size) .quota
  refuseIf (r.policy.maxSessionTransfers ≤ r.usage.transfers ∨
    r.policy.maxSessionBytes < declaredBytes) .quota
  charge (recordCost + byteLength offer.name + offer.expected.metadataBytes)
  let deadline ← okOr (checkedAdd first.now r.policy.transferLifetime) .clock
  modify fun r =>
    {r with
      floor := some offer.id
      usage := ⟨r.usage.transfers+1,declaredBytes⟩
      log := r.log ++ [.began offer.id first.now offer.size]}
  let file ← ofResult (opened.mapError .storage)
  let a : ActiveTransfer M := ⟨offer.id,offer.size,deadline,file⟩
  modify fun r => {r with active := some a}
  checkOrDrop second
  pure a.progress

def writeEntry (binding : FileBinding) (id index offset : ℕ) (bytes : List Byte)
    (first second : Sample) (write : Call) : Proc (HostReceiver M) ReceiveError FileProgress := do
  bindingCheck binding
  let a ← activeCheck id
  check first
  if bytes = [] ∨ maxChunkBytes < bytes.length then
    takeActive
    throw (.storage .invalidChunk)
  else
    charge (recordCost + bytes.length)
    match a.file.writeEntry index offset bytes write with
    | (.error e,_) =>
      takeActive
      throw (.storage e)
    | (.ok _,file) =>
      modify fun r => {r with active := some {a with file}}
      checkOrDrop second
      pure {a with file}.progress

def complete (binding : FileBinding) (id : ℕ) (first second : Sample) (fs : VerifyCalls)
    (rename : ℕ → Call) (fsync : Call) : Proc (HostReceiver M) ReceiveError FileReceipt := do
  bindingCheck binding
  let a ← activeCheck id
  check first
  charge recordCost
  takeActive
  ofResult ((a.file.verify d fs).1.mapError .storage)
  check second
  if a.deadline ≤ second.now then
    modify fun r => {r with closed := true}
    throw .expired
  else
    modify fun r => {r with log := r.log ++ [.published id]}
    let publication ← ofResult (((a.file.verify d fs).2.publish rename fsync).mapError .storage)
    pure ⟨id,a.size,publication⟩

def service (s : Sample) : Proc (HostReceiver M) ReceiveError Unit := checkOrDrop s

def cancel (binding : FileBinding) (id : ℕ) (unlink : Place → Call) :
    Proc (HostReceiver M) ReceiveError Unit := do
  bindingCheck binding
  let a ← activeCheck id
  takeActive
  ofResult ((a.file.cancel unlink).mapError .storage)

def close (unlink : Place → Call) : Proc (HostReceiver M) ReceiveError Unit := do
  modify fun r => {r with closed := true}
  let r ← get
  takeActive
  match r.active with
  | none => pure ()
  | some a => ofResult ((a.file.cancel unlink).mapError .storage)

def answer {α : Type} (reply : α → LaneReply) (x : Except ReceiveError α × HostReceiver M) :
    LaneReply × HostReceiver M :=
  match x.1 with
  | .ok a => (reply a,x.2)
  | .error e => (.refused e,x.2)

def step (r : HostReceiver M) : LaneInput M → LaneReply × HostReceiver M
  | .begin offer first second opened =>
    answer .progress (exec (beginVerified env offer first second opened) r)
  | .writeEntry binding id index offset bytes first second write =>
    answer .progress (exec (writeEntry binding id index offset bytes first second write) r)
  | .complete binding id first second fs rename fsync =>
    answer .receipt (exec (complete d binding id first second fs rename fsync) r)
  | .service s => answer (fun _ => .done) (exec (service s) r)
  | .cancel binding id unlink => answer (fun _ => .done) (exec (cancel binding id unlink) r)
  | .close unlink => answer (fun _ => .done) (exec (close unlink) r)

end HostReceiver
end FrankenRemote.Files
