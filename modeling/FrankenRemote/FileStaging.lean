import FrankenRemote.DirectoryManifest
import FrankenRemote.ObjectTable
import FrankenRemote.Primitives
import FrankenRemote.Procedure
import FrankenRemote.Transition

/-! Staged objects of one drop directory. Files and trees are written under private names,
verified, and then published under their own name or removed; each holds a reservation of the
directory until it goes. The answers of the file system are inputs. -/
namespace FrankenRemote.Files

open Bytes Procedure List

def maxChunkBytes : ℕ := 64*1024

/-- The errors that the code tells apart; `OPNOTSUPP`, `ISDIR` and `INVAL` are one. -/
inductive Errno
  | exist | noent | unsupported
  | other (kind : ℕ)
  deriving DecidableEq

def Errno.kind : Errno → ℕ
  | .exist => 0
  | .noent => 1
  | .unsupported => 2
  | .other kind => kind+3

def Errno.error (e : Errno) : FileError := .io e.kind

/-- `ErrorKind::Other`, the error of a failed random source. -/
def randomFailure : FileError := (Errno.other 0).error

/-- The answer to one system call; nothing is success. -/
abbrev Call := Option Errno

def call {σ : Type} (answer : Call) : Proc σ FileError Unit :=
  match answer with
  | none => pure ()
  | some e => throw e.error

/-! Names. -/

/-- A name that only a staging owner uses. -/
abbrev StagingName := {name : Text // stagingPrefix <+: name}

/-- A name under which an object can be published. -/
abbrev PublicName := {name : Text // ¬stagingPrefix <+: name}

def hexDigits (width n : ℕ) : Text := (Nat.toDigits 16 n).leftpad width '0'

def stagingLabel (nonce : ℕ) : StagingName :=
  ⟨stagingPrefix ++ hexDigits 32 nonce,List.prefix_append _ _⟩

def maxConflictAttempts : ℕ := 8

def conflictMarker (nonce attempt : ℕ) : Text :=
  ['.','f','r','-','c','o','n','f','l','i','c','t','-'] ++ hexDigits 32 nonce ++
    '-' :: Nat.toDigits 10 attempt

/-- `rsplit_once('.')`. -/
def rsplitDot (s : Text) : Option (Text × Text) :=
  match s.reverse.dropWhile (· ≠ '.') with
  | [] => none
  | _::stem => some (stem.reverse,(s.reverse.takeWhile (· ≠ '.')).reverse)

def splitExtension (original : Text) : Text × Text :=
  match rsplitDot original with
  | some (stem,extension) =>
    if stem ≠ [] ∧ byteLength extension ≤ 32 then (stem,'.'::extension) else (original,[])
  | none => (original,[])

/-- The longest beginning of at most `n` bytes that ends between characters. -/
def takeBytes : ℕ → Text → Text
  | _, [] => []
  | n, c::s => if c.utf8Size ≤ n then c :: takeBytes (n-c.utf8Size) s else []

def conflictText (original : Text) (nonce attempt : ℕ) : Text :=
  takeBytes (255 - byteLength (conflictMarker nonce attempt) - byteLength
    (splitExtension original).2)
    (splitExtension original).1 ++ conflictMarker nonce attempt ++ (splitExtension original).2

theorem takeBytes_initial (n : ℕ) (s : Text) : takeBytes n s <+: s := by
  induction s generalizing n with
  | nil => simp [takeBytes]
  | cons c s ih =>
    unfold takeBytes
    split_ifs
    · exact cons_prefix_cons.mpr ⟨rfl,ih _⟩
    · exact nil_prefix

theorem rsplitDot_initial {s stem extension} (h : rsplitDot s = some (stem,extension)) :
    stem <+: s := by
  unfold rsplitDot at h
  split at h
  · cases h
  · rename_i dot rest hdrop
    cases h
    have hs := takeWhile_append_dropWhile (p := (· ≠ '.')) (l := s.reverse)
    rw [hdrop] at hs
    have hr := congrArg List.reverse hs
    simp only [reverse_append,reverse_cons,reverse_reverse,append_assoc] at hr
    exact ⟨_,hr⟩

theorem splitExtension_initial (original : Text) : (splitExtension original).1 <+: original := by
  unfold splitExtension
  split
  · rename_i stem extension h
    split_ifs
    · exact rsplitDot_initial h
    · exact prefix_refl _
  · exact prefix_refl _

/-- Behind another beginning the marker's dot is not at the place of the only dot of the
staging names, and the marker alone differs from them. -/
theorem marker_not_staged {s rest : Text} (nonce attempt : ℕ) (h : ¬stagingPrefix <+: s) :
    ¬stagingPrefix <+: s ++ (conflictMarker nonce attempt ++ rest) := by
  intro hp
  rcases prefix_or_prefix_of_prefix hp (prefix_append s _) with hs | hs
  · exact h hs
  · have hm := (mem_inits s _).mpr hs
    simp only [stagingPrefix,List.inits,map_cons,map_nil,mem_cons,not_mem_nil,or_false] at hm
    rcases hm with rfl | rfl | rfl | rfl | rfl | rfl | rfl | rfl | rfl | rfl <;>
      simp [stagingPrefix,conflictMarker] at hp h

theorem conflictText_public {original : Text} (h : ¬stagingPrefix <+: original)
    (nonce attempt : ℕ) : ¬stagingPrefix <+: conflictText original nonce attempt := by
  rw [conflictText,append_assoc]
  apply marker_not_staged
  intro hp
  exact h ((hp.trans (takeBytes_initial _ _)).trans (splitExtension_initial _))

def conflictName (original : PublicName) (nonce attempt : ℕ) : PublicName :=
  ⟨conflictText original.1 nonce attempt,conflictText_public original.2 nonce attempt⟩

/-! The account of the directory. -/

structure StagingLimits where
  maxFileBytes : ℕ
  maxReservedBytes : ℕ
  maxTransfers : ℕ
  deriving DecidableEq

structure Reserved where
  bytes : ℕ
  transfers : ℕ
  deriving DecidableEq

structure Reservation where
  size : ℕ
  /-- False once a cleanup has failed; the charge then stays. -/
  release : Bool

def Reserved.reserve (limits : StagingLimits) (held : Reserved) (size : ℕ) :
    Except FileError Reserved :=
  match checkedAdd held.bytes size with
  | none => .error .quota
  | some total =>
    if limits.maxFileBytes < size ∨ limits.maxReservedBytes < total ∨
        limits.maxTransfers ≤ held.transfers then
      .error .quota
    else .ok ⟨total,held.transfers+1⟩

/-- The subtractions of `Drop for Reservation`; none below zero. -/
def Reserved.giveBack (held : Reserved) (size : ℕ) : Option Reserved :=
  if size ≤ held.bytes ∧ 1 ≤ held.transfers then some ⟨held.bytes-size,held.transfers-1⟩ else none

/-! Staged objects. -/

inductive ObjectState
  | receiving | verified | failed | published | cancelled
  deriving DecidableEq

inductive ConflictPolicy
  | reject | keepBoth
  deriving DecidableEq

inductive Publication
  | durable | durabilityUnknown
  deriving DecidableEq

/-- `PublishedFile` and `PublishedDirectory`. -/
structure PublishedObject where
  name : PublicName
  publication : Publication
  renamed : Bool
  deriving DecidableEq

/-- A name in the drop directory, or in a directory of the object's own tree. -/
structure Place where
  directory : Option ℕ
  name : Text
  deriving DecidableEq

/-- What files and trees in custody have in common. -/
structure Pending (σ : Type) where
  staged : σ
  reservation : Reservation
  destination : PublicName
  conflictPolicy : ConflictPolicy
  nonce : ℕ
  received : ℕ
  state : ObjectState
  /-- The names that this owner has asked the file system to remove. -/
  unlinked : List Place

/-- How the two kinds of objects differ at their end. -/
structure Custody (σ : Type) where
  /-- The names that a cleanup removes, in its order. -/
  targets : σ → List Place
  close : σ → σ
  /-- The descriptor that publication needs is open; otherwise it is `BADF`. -/
  open_ : σ → Bool
  hidden : ∀ s, ∀ place ∈ targets s, place.directory = none → stagingPrefix <+: place.name

/-- A removed name may be gone already; of the other errors the last is reported. -/
def lastFailure (unlink : Place → Call) : List Place → Call
  | [] => none
  | place::places =>
    match lastFailure unlink places with
    | some e => some e
    | none => if unlink place = some .noent then none else unlink place

section Custody

variable {σ : Type} (c : Custody σ)

def cleanup (unlink : Place → Call) : Proc (Pending σ) FileError Unit := do
  let p ← get
  if p.state = .published ∨ p.state = .cancelled then pure ()
  else
    modify fun p => {p with unlinked := p.unlinked ++ c.targets p.staged}
    match lastFailure unlink (c.targets p.staged) with
    | none =>
      modify fun p =>
        {p with staged := c.close p.staged, state := .cancelled, reservation := {p.reservation with
          release := true}}
    | some e =>
      modify fun p => {p with reservation := {p.reservation with release := false}}
      throw e.error

/-- The loop of `publish_named`; the first argument counts the attempts left. -/
def tryPublish (rename : ℕ → Call) (policy : ConflictPolicy) (original : PublicName) (nonce : ℕ) :
    ℕ → ℕ → PublicName → Except FileError (PublicName × ℕ)
  | remaining, attempt, destination =>
    match rename attempt with
    | none => .ok (destination,attempt)
    | some .exist =>
      match remaining with
      | 0 => .error .conflict
      | remaining+1 =>
        if policy = .keepBoth then
          tryPublish rename policy original nonce remaining (attempt+1)
            (conflictName original nonce attempt)
        else .error .conflict
    | some e => .error e.error

/-- The empty string that `mem::take` leaves. -/
def PublicName.taken : PublicName := ⟨[],by decide⟩

def publishNamed (rename : ℕ → Call) (fsync : Call) :
    Proc (Pending σ) FileError PublishedObject := do
  let p ← get
  refuseIf (p.state ≠ .verified) .retired
  modify fun p => {p with state := .failed}
  let (destination,attempt) ← ofResult
    (tryPublish (fun attempt => if c.open_ p.staged then rename attempt else some (.other 1))
      p.conflictPolicy p.destination p.nonce maxConflictAttempts 0 p.destination)
  modify fun p => {p with state := .published, destination := .taken}
  pure ⟨destination,if fsync = none then .durable else .durabilityUnknown,decide (attempt ≠ 0)⟩

end Custody

/-! Files. -/

/-- `Expected`; a digest is a function of the bytes. -/
inductive Expected (M : Type)
  | directory (manifest : DirectoryManifest M)
  | content (id : ℕ)
  | manifest (sha256Hex merkleRootHex : Text)

/-- The digests of the transfer library, over names and bytes. -/
structure Digests where
  sha256Hex : List Byte → Text
  merkleRoot : List (Text × List Byte) → Text
  hasContent : ℕ → List Byte → Bool

structure StagedFile (M : Type) where
  file : Bool
  /-- The private name; none for an unnamed inode. -/
  location : Option StagingName
  size : ℕ
  expected : Expected M
  /-- The bytes that the hasher has seen. -/
  hasher : Option (List Byte)

def fileCustody (M : Type) : Custody (StagedFile M) where
  targets s := if s.file then s.location.toList.map fun name => ⟨none,name.1⟩ else []
  close s := {s with file := false}
  open_ := StagedFile.file
  hidden s place h _ := by
    split at h
    · obtain ⟨name,_,rfl⟩ := List.mem_map.mp h
      exact name.2
    · cases h

abbrev PendingFile (M : Type) := Pending (StagedFile M)

/-- `StagingFile::create`: an unnamed inode where the file system has them. -/
def createStaging (procfs : Bool) (tmpfile create : Call) (name : StagingName) :
    Except Errno (Option StagingName) :=
  match procfs,tmpfile with
  | true,none => .ok none
  | true,some .unsupported | false,_ =>
    match create with
    | none => .ok (some name)
    | some e => .error e
  | true,some e => .error e

def Digests.matchesExpected {M : Type} (d : Digests) (expected : Expected M) (name : Text)
    (bytes : List Byte) : Bool :=
  match expected with
  | .directory _ => false
  | .content id => d.hasContent id bytes
  | .manifest sha256Hex merkleRootHex =>
    d.sha256Hex bytes = sha256Hex ∧ d.merkleRoot [(name,bytes)] = merkleRootHex

section File

variable {M : Type} (d : Digests)

def writeChunk (offset : ℕ) (bytes : List Byte) (write : Call) :
    Proc (PendingFile M) FileError Unit := do
  let f ← get
  refuseIf (f.state ≠ .receiving) .retired
  modify fun f => {f with state := .failed}
  let stop ← okOr (checkedAdd offset bytes.length) .invalidChunk
  refuseIf (bytes = [] ∨ maxChunkBytes < bytes.length ∨ offset ≠ f.received ∨
    f.staged.size < stop) .invalidChunk
  call write
  let seen ← okOr f.staged.hasher .retired
  modify fun f =>
    {f with
      staged := {f.staged with hasher := some (seen ++ bytes)}, received := stop,
      state := .receiving}

def verifyFile (sync : Call) : Proc (PendingFile M) FileError Unit := do
  let f ← get
  refuseIf (f.state ≠ .receiving) .retired
  modify fun f => {f with state := .failed}
  refuseIf (f.received ≠ f.staged.size) .incomplete
  let seen ← okOr f.staged.hasher .retired
  modify fun f => {f with staged := {f.staged with hasher := none}}
  refuseIf (¬d.matchesExpected f.staged.expected f.destination.1 seen ∨
    seen.length ≠ f.staged.size) .integrity
  call sync
  modify fun f => {f with state := .verified}

end File

/-! Trees. -/

structure TreeDirectory where
  parent : ℕ
  name : Text

structure TreeEntry where
  /-- False for a structural directory, which is never written. -/
  file : Bool
  parent : ℕ
  name : Text
  path : Text
  size : ℕ
  received : ℕ
  sha : Text
  hasher : Option (List Byte)

structure StagedTree where
  entries : List TreeEntry
  /-- The name of directory 0. -/
  name : StagingName
  /-- The directories from 1 on. -/
  directories : List TreeDirectory
  root : Text

def treeCustody : Custody StagedTree where
  targets t := (t.entries.filter TreeEntry.file).map (fun e => ⟨some e.parent,e.name⟩) ++
    t.directories.reverse.map (fun d => ⟨some d.parent,d.name⟩) ++ [⟨none,t.name.1⟩]
  close := id
  open_ _ := true
  hidden t place h hroot := by
    simp only [List.mem_append,List.mem_map,List.mem_singleton] at h
    rcases h with (⟨e,_,rfl⟩ | ⟨d,_,rfl⟩) | rfl
    · cases hroot
    · cases hroot
    · exact t.name.2

abbrev PendingDirectory := Pending StagedTree

def writeEntry (index offset : ℕ) (bytes : List Byte) (write : Call) :
    Proc PendingDirectory FileError Unit := do
  let p ← get
  refuseIf (p.state ≠ .receiving) .retired
  modify fun p => {p with state := .failed}
  let entry ← okOr p.staged.entries[index]? .invalidChunk
  let stop ← okOr (checkedAdd offset bytes.length) .invalidChunk
  refuseIf (bytes = [] ∨ maxChunkBytes < bytes.length ∨ offset ≠ entry.received ∨
    entry.size < stop) .invalidChunk
  refuseIf (¬entry.file) .invalidChunk
  call write
  let seen ← okOr entry.hasher .retired
  modify fun p =>
    {p with staged := {p.staged with
      entries := p.staged.entries.set index
        {entry with hasher := some (seen ++ bytes), received := stop}}}
  let received ← okOr (checkedAdd p.received bytes.length) .quota
  modify fun p => {p with received, state := .receiving}

/-- The loop over the entries: their digests, and the entries as it leaves them. -/
def verifyEntries (d : Digests) (sync : ℕ → Call) : ℕ → List TreeEntry →
    Except FileError (List (Text × List Byte)) × List TreeEntry
  | _, [] => (.ok [],[])
  | i, e::entries =>
    if e.received ≠ e.size then (.error .incomplete,e::entries)
    else
      match e.hasher with
      | none => (.error .retired,e::entries)
      | some seen =>
        if seen.length ≠ e.size ∨ d.sha256Hex seen ≠ e.sha then
          (.error .integrity,{e with hasher := none}::entries)
        else
          match e.file,sync i with
          | true,some error => (.error error.error,{e with hasher := none}::entries)
          | _,_ =>
            ((verifyEntries d sync (i+1) entries).1.map ((e.path,seen)::·),
              {e with hasher := none}::(verifyEntries d sync (i+1) entries).2)

def verifyDirectory (d : Digests) (sync fsync : ℕ → Call) :
    Proc PendingDirectory FileError Unit := do
  let p ← get
  refuseIf (p.state ≠ .receiving) .retired
  modify fun p => {p with state := .failed}
  modify fun p => {p with
    staged := {p.staged with entries := (verifyEntries d sync 0 p.staged.entries).2}}
  let digests ← ofResult (verifyEntries d sync 0 p.staged.entries).1
  refuseIf (d.merkleRoot digests ≠ p.staged.root) .integrity
  -- `iter().rev()` over all directories, the root last
  call ((List.range (p.staged.directories.length+1)).reverse.findSome? fsync)
  modify fun p => {p with state := .verified}

/-! The construction of a tree. -/

structure TreeBuild where
  tree : StagedTree
  paths : List (Text × ℕ)
  unlinked : List Place

/-- The answers while a tree is created. -/
structure TreeCalls where
  mkdir : Place → Call
  openDirectory : Place → Call
  openFile : Place → Call
  /-- The removal of the new root whose descriptor could not be opened. -/
  unlinkRoot : Call

def createDirectory (fs : TreeCalls) (parent : ℕ) (name : Text) : Proc TreeBuild FileError ℕ := do
  call (fs.mkdir ⟨some parent,name⟩)
  match fs.openDirectory ⟨some parent,name⟩ with
  | some e =>
    modify fun b => {b with unlinked := b.unlinked ++ [⟨some parent,name⟩]}
    throw e.error
  | none =>
    let b ← get
    modify fun b => {b with
      tree := {b.tree with directories := b.tree.directories ++ [⟨parent,name⟩]}}
    pure (b.tree.directories.length+1)

/-- The loop over the parents of one entry. -/
def createParents (fs : TreeCalls) (parent : ℕ) (path : Text) :
    List Text → Proc TreeBuild FileError ℕ
  | [] => pure parent
  | part::parts => do
    let path := if path ≠ [] then path ++ '/' :: part else part
    let b ← get
    match b.paths.lookup path with
    | some index => createParents fs index path parts
    | none =>
      let index ← createDirectory fs parent part
      modify fun b => {b with paths := (path,index)::b.paths}
      createParents fs index path parts

section Tree

variable {M : Type} (env : Portability M)

def createEntry (fs : TreeCalls) (e : ManifestEntry M) : Proc TreeBuild FileError Unit := do
  let parts ← ofResult (pathComponents env e.relPath)
  let parent ← createParents fs 0 [] (if e.metadata.isSome then parts else parts.dropLast)
  let name := parts.getLastD []
  call (if e.metadata.isSome then none else fs.openFile ⟨some parent,name⟩)
  modify fun b => {b with tree := {b.tree with
    entries := b.tree.entries ++
      [⟨e.metadata.isNone,parent,name,e.relPath,e.size,0,e.sha256Hex,some []⟩]}}

def createEntries (fs : TreeCalls) : List (ManifestEntry M) → Proc TreeBuild FileError Unit
  | [] => pure ()
  | e::entries => do
    createEntry env fs e
    createEntries fs entries

end Tree

end FrankenRemote.Files
