import FrankenRemote.FileStaging

/-! A drop directory with all its staged objects. The section of `begin` that reserves is a step
of its own, as is every later call, so a run is any interleaving of any number of owners. -/
namespace FrankenRemote.Files

open Bytes Procedure Ensures

variable {M : Type} {b : TreeBuild}

theorem validateName_public {env : Portability M} {name : Text}
    (h : validateName env name = .ok ()) : ¬stagingPrefix <+: name := by
  unfold validateName at h
  split_ifs at h with hbad
  simp only [not_or,List.isPrefixOf_iff_prefix] at hbad
  exact hbad.2.1

/-- `DirectoryManifest`, which only `validated` makes. -/
structure AcceptedManifest {M : Type} [DecidableEq M] (env : Portability M) where
  manifest : DirectoryManifest M
  accepted : ∃ name size entries root metadataRoot,
    validated env name size entries root metadataRoot = .ok manifest

theorem AcceptedManifest.name_public [DecidableEq M] {env : Portability M}
    (m : AcceptedManifest env) : ¬stagingPrefix <+: m.manifest.name := by
  obtain ⟨name,_,_,_,_,h⟩ := m.accepted
  obtain ⟨_,hname,h⟩ := bind_eq_ok.mp h
  split at h
  · cases h
  · obtain ⟨s,_,h⟩ := bind_eq_ok.mp h
    split_ifs at h
    rw [← Except.ok.inj h]
    exact validateName_public hname

/-- What the construction of an object still needs. -/
inductive Request {M : Type} [DecidableEq M] (env : Portability M)
  | file (name : PublicName) (size : ℕ) (expected : Expected M)
  | directory (manifest : AcceptedManifest env)

inductive Slot {M : Type} [DecidableEq M] (env : Portability M)
  /-- Reserved; `begin` has not returned. -/
  | opening (reservation : Reservation) (policy : ConflictPolicy) (request : Request env)
  | file (p : PendingFile M)
  | directory (p : PendingDirectory)
  /-- Gone, but its cleanup failed and the charge stays. -/
  | retained (size : ℕ)

structure DropRoot {M : Type} [DecidableEq M] (env : Portability M) where
  limits : StagingLimits
  reserved : Reserved
  objects : ObjectTable (Slot env)

/-- The answers while a file is created. -/
structure FileCalls where
  random : Option ℕ
  procfs : Bool
  tmpfile : Call
  create : Call

inductive StagingInput {M : Type} [DecidableEq M] (env : Portability M)
  /-- `begin_verified` up to its reservation. -/
  | beginFile (name : Text) (size : ℕ) (expected : Expected M) (policy : ConflictPolicy)
  | beginDirectory (manifest : AcceptedManifest env) (policy : ConflictPolicy)
  /-- The rest of `begin_verified`. -/
  | openFile (k : ℕ) (fs : FileCalls)
  | openDirectory (k : ℕ) (random : Option ℕ) (fs : TreeCalls) (unlink : Place → Call)
  | writeChunk (k offset : ℕ) (bytes : List Byte) (write : Call)
  | writeEntry (k index offset : ℕ) (bytes : List Byte) (write : Call)
  | verifyFile (k : ℕ) (sync : Call)
  | verifyDirectory (k : ℕ) (sync fsync : ℕ → Call)
  | publish (k : ℕ) (rename : ℕ → Call) (fsync : Call) (unlink : Place → Call)
  /-- The explicit cleanup, and the one of the drop behind it. -/
  | cancel (k : ℕ) (first second : Place → Call)
  | drop (k : ℕ) (unlink : Place → Call)

inductive StagingOutcome
  | begun (k : ℕ)
  | opened
  | done
  | published (object : PublishedObject)
  | refused (error : FileError)
  /-- A subtraction below zero. -/
  | underflow
  /-- No such object is alive; ownership excludes the call. -/
  | absent

/-- The end of a reservation. -/
structure Dropped where
  object : ℕ
  /-- The last cleanup succeeded, or nothing was left to clean. -/
  cleaned : Bool
  released : Bool
  deriving DecidableEq

structure StagingReply where
  outcome : StagingOutcome
  removed : List Place
  dropped : Option Dropped

def StagingOutcome.ofResult : Except FileError Unit → StagingOutcome
  | .ok () => .done
  | .error e => .refused e

def StagingOutcome.ofPublication : Except FileError PublishedObject → StagingOutcome
  | .ok object => .published object
  | .error e => .refused e

namespace DropRoot

variable {M : Type} [DecidableEq M] {env : Portability M} (d : Digests)

def new (limits : StagingLimits) : DropRoot env := ⟨limits,⟨0,0⟩,.empty⟩

def reserve (w : DropRoot env) (size : ℕ) (slot : Slot env) : StagingReply × DropRoot env :=
  match w.reserved.reserve w.limits size with
  | .ok reserved => (⟨.begun w.objects.fresh,[],none⟩,
    {w with reserved, objects := w.objects.add slot})
  | .error e => (⟨.refused e,[],none⟩,w)

/-- `Drop for Reservation`, after its owner has gone. -/
def settle (w : DropRoot env) (k : ℕ) (r : Reservation) (outcome : StagingOutcome)
    (removed : List Place) (cleaned : Bool) : StagingReply × DropRoot env :=
  if r.release then
    match w.reserved.giveBack r.size with
    | some reserved =>
      (⟨outcome,removed,some ⟨k,cleaned,true⟩⟩,{w with reserved, objects := w.objects.set k none})
    | none => (⟨.underflow,removed,none⟩,w)
  else
    (⟨outcome,removed,some ⟨k,cleaned,false⟩⟩,
      {w with objects := w.objects.set k (some (.retained r.size))})

/-- The drop of an object: its cleanup, then its reservation. -/
def dropObject {σ : Type} (w : DropRoot env) (k : ℕ) (c : Custody σ) (outcome : StagingOutcome)
    (unlink : Place → Call) (p : Pending σ) : StagingReply × DropRoot env :=
  w.settle k (exec (cleanup c unlink) p).2.reservation outcome
    (exec (cleanup c unlink) p).2.unlinked (exec (cleanup c unlink) p).1.isOk

def update (w : DropRoot env) (k : ℕ) (outcome : StagingOutcome) (slot : Slot env) :
    StagingReply × DropRoot env :=
  (⟨outcome,[],none⟩,{w with objects := w.objects.set k (some slot)})

def openFile (w : DropRoot env) (k : ℕ) (r : Reservation) (policy : ConflictPolicy)
    (name : PublicName) (size : ℕ)
    (expected : Expected M) (fs : FileCalls) : StagingReply × DropRoot env :=
  match fs.random with
  | none => w.settle k r (.refused randomFailure) [] true
  | some nonce =>
    match createStaging fs.procfs fs.tmpfile fs.create (stagingLabel nonce) with
    | .error e => w.settle k r (.refused e.error) [] true
    | .ok location =>
      w.update k .opened (.file ⟨⟨true,location,size,expected,some []⟩,r,name,policy,nonce,0,
        .receiving,[]⟩)

def openDirectory (w : DropRoot env) (k : ℕ) (r : Reservation) (policy : ConflictPolicy)
    (m : AcceptedManifest env)
    (random : Option ℕ) (fs : TreeCalls) (unlink : Place → Call) : StagingReply × DropRoot env :=
  match random with
  | none => w.settle k r (.refused randomFailure) [] true
  | some nonce =>
    match fs.mkdir ⟨none,(stagingLabel nonce).1⟩ with
    | some e => w.settle k r (.refused e.error) [] true
    | none =>
      match fs.openDirectory ⟨none,(stagingLabel nonce).1⟩ with
      | some e =>
        w.settle k {r with release := fs.unlinkRoot.isNone}
          (.refused e.error) [⟨none,(stagingLabel nonce).1⟩] fs.unlinkRoot.isNone
      | none =>
        let build : TreeBuild := ⟨⟨[],stagingLabel nonce,[],m.manifest.root⟩,[([],0)],[]⟩
        let built := exec (createEntries env fs m.manifest.entries) build
        let p : PendingDirectory :=
          ⟨built.2.tree,r,⟨m.manifest.name,m.name_public⟩,policy,nonce,0,.receiving,
            built.2.unlinked⟩
        match built.1 with
        | .ok () => w.update k .opened (.directory p)
        | .error e => w.dropObject k treeCustody (.refused e) unlink p

/-- A call on an object that its owner keeps. -/
def work {σ : Type} (w : DropRoot env) (k : ℕ) (slot : Pending σ → Slot env)
    (m : Proc (Pending σ) FileError Unit) (p : Pending σ) : StagingReply × DropRoot env :=
  w.update k (.ofResult (exec m p).1) (slot (exec m p).2)

def publish {σ : Type} (w : DropRoot env) (k : ℕ) (c : Custody σ) (rename : ℕ → Call) (fsync : Call)
    (unlink : Place → Call) (p : Pending σ) : StagingReply × DropRoot env :=
  w.dropObject k c (.ofPublication (exec (publishNamed c rename fsync) p).1) unlink
    (exec (publishNamed c rename fsync) p).2

def cancel {σ : Type} (w : DropRoot env) (k : ℕ) (c : Custody σ) (first second : Place → Call)
    (p : Pending σ) : StagingReply × DropRoot env :=
  w.dropObject k c (.ofResult (exec (cleanup c first) p).1) second (exec (cleanup c first) p).2

def missing (w : DropRoot env) : StagingReply × DropRoot env := (⟨.absent,[],none⟩,w)

def step (w : DropRoot env) : StagingInput env → StagingReply × DropRoot env
  | .beginFile name size expected policy =>
    if h : validateName env name = .ok () then
      w.reserve size (.opening ⟨size,true⟩ policy
        (.file ⟨name,validateName_public h⟩ size expected))
    else (⟨.refused .invalidName,[],none⟩,w)
  | .beginDirectory m policy => w.reserve m.manifest.size (.opening ⟨m.manifest.size,true⟩ policy
    (.directory m))
  | .openFile k fs =>
    match w.objects.slot k with
    | some (.opening r policy (.file name size expected)) =>
      w.openFile k r policy name size expected fs
    | _ => w.missing
  | .openDirectory k random fs unlink =>
    match w.objects.slot k with
    | some (.opening r policy (.directory m)) => w.openDirectory k r policy m random fs unlink
    | _ => w.missing
  | .writeChunk k offset bytes write =>
    match w.objects.slot k with
    | some (.file p) => w.work k .file (writeChunk offset bytes write) p
    | _ => w.missing
  | .writeEntry k index offset bytes write =>
    match w.objects.slot k with
    | some (.directory p) => w.work k .directory (writeEntry index offset bytes write) p
    | _ => w.missing
  | .verifyFile k sync =>
    match w.objects.slot k with
    | some (.file p) => w.work k .file (verifyFile d sync) p
    | _ => w.missing
  | .verifyDirectory k sync fsync =>
    match w.objects.slot k with
    | some (.directory p) => w.work k .directory (verifyDirectory d sync fsync) p
    | _ => w.missing
  | .publish k rename fsync unlink =>
    match w.objects.slot k with
    | some (.file p) => w.publish k (fileCustody M) rename fsync unlink p
    | some (.directory p) => w.publish k treeCustody rename fsync unlink p
    | _ => w.missing
  | .cancel k first second =>
    match w.objects.slot k with
    | some (.file p) => w.cancel k (fileCustody M) first second p
    | some (.directory p) => w.cancel k treeCustody first second p
    | _ => w.missing
  | .drop k unlink =>
    match w.objects.slot k with
    | some (.file p) => w.dropObject k (fileCustody M) .done unlink p
    | some (.directory p) => w.dropObject k treeCustody .done unlink p
    | _ => w.missing

end DropRoot

/-! What the calls on one object do. -/

/-- A call that needs an object in reception and leaves it in `goal`. -/
inductive Worked (goal : ObjectState) : ObjectState → Except FileError Unit → ObjectState → Prop
  | done : Worked goal .receiving (.ok ()) goal
  | failed (e : FileError) : Worked goal .receiving (.error e) .failed
  | refused {s} (h : s ≠ .receiving) : Worked goal s (.error .retired) s

/-- Of the root, only private names. -/
def Hidden (places : List Place) : Prop :=
  ∀ place ∈ places, place.directory = none → stagingPrefix <+: place.name

theorem Hidden.nil : Hidden [] := by simp [Hidden]

theorem Hidden.append {a b} (ha : Hidden a) (hb : Hidden b) : Hidden (a++b) := by
  intro place hm
  rcases List.mem_append.mp hm with h | h
  · exact ha place h
  · exact hb place h

theorem call_bind {τ α : Type} {a : Call} {f : Unit → Proc τ FileError α} {s : τ}
    {P : Except FileError α → τ → Prop} (her : ∀ e, P (.error e) s) (hok : Ensures (f ()) s P) :
    Ensures (call a >>= f) s P := by
  cases a with
  | none => exact hok
  | some e => exact her e.error

section Objects

variable {σ : Type} {goal : ObjectState} {p q : Pending σ} {r : Except FileError Unit}

structure WorkDone (goal : ObjectState) (p : Pending σ) (r : Except FileError Unit)
    (q : Pending σ) : Prop where
  reservation : q.reservation = p.reservation
  unlinked : q.unlinked = p.unlinked
  state : Worked goal p.state r q.state

/-- The body of such a call, which starts from a failed object. -/
structure BodyDone (goal : ObjectState) (p : Pending σ) (r : Except FileError Unit)
    (q : Pending σ) : Prop where
  reservation : q.reservation = p.reservation
  unlinked : q.unlinked = p.unlinked
  state : q.state = if r.isOk then goal else .failed

theorem workDone_of_body {body : Pending σ → Proc (Pending σ) FileError Unit}
    (h : Ensures (body p) {p with state := .failed} (BodyDone goal p)) :
    Ensures (do
      let p ← get
      refuseIf (p.state ≠ .receiving) .retired
      modify fun p => {p with state := .failed}
      body p) p (WorkDone goal p) := by
  refine .get_bind (.refuseIf_bind (fun h => ⟨rfl,rfl,.refused h⟩)
    fun hs => .modify_bind (h.mono ?_))
  intro r q hbody
  refine ⟨hbody.reservation,hbody.unlinked,?_⟩
  rw [hbody.state,not_not.mp hs]
  cases r with
  | error e => exact .failed e
  | ok u => exact .done

theorem writeChunk_workDone {M : Type} (p : PendingFile M) (o : ℕ) (bs : List Byte) (w : Call) :
    Ensures (writeChunk o bs w) p (WorkDone .receiving p) := by
  apply workDone_of_body
  have hf : ∀ e, BodyDone .receiving p (.error e) {p with state := .failed} :=
    fun _ => ⟨rfl,rfl,rfl⟩
  apply okOr_bind (fun _ => hf _)
  intro stop _
  apply refuseIf_bind (fun _ => hf _)
  intro _
  apply call_bind hf
  apply okOr_bind (fun _ => hf _)
  intro seen _
  exact ⟨rfl,rfl,rfl⟩

theorem verifyFile_workDone {M : Type} (d : Digests) (p : PendingFile M) (sync : Call) :
    Ensures (verifyFile d sync) p (WorkDone .verified p) := by
  apply workDone_of_body
  apply refuseIf_bind (fun _ => ⟨rfl,rfl,rfl⟩)
  intro _
  apply okOr_bind (fun _ => ⟨rfl,rfl,rfl⟩)
  intro seen _
  apply modify_bind
  apply refuseIf_bind (fun _ => ⟨rfl,rfl,rfl⟩)
  intro _
  exact call_bind (fun _ => ⟨rfl,rfl,rfl⟩) ⟨rfl,rfl,rfl⟩

theorem writeEntry_workDone (p : PendingDirectory) (i o : ℕ) (bs : List Byte) (w : Call) :
    Ensures (writeEntry i o bs w) p (WorkDone .receiving p) := by
  apply workDone_of_body
  have hf : ∀ e, BodyDone .receiving p (.error e) {p with state := .failed} :=
    fun _ => ⟨rfl,rfl,rfl⟩
  apply okOr_bind (fun _ => hf _)
  intro entry _
  apply okOr_bind (fun _ => hf _)
  intro stop _
  apply refuseIf_bind (fun _ => hf _)
  intro _
  apply refuseIf_bind (fun _ => hf _)
  intro _
  apply call_bind hf
  apply okOr_bind (fun _ => hf _)
  intro seen _
  apply modify_bind
  apply okOr_bind (fun _ => ⟨rfl,rfl,rfl⟩)
  intro received _
  exact ⟨rfl,rfl,rfl⟩

theorem verifyDirectory_workDone (d : Digests) (p : PendingDirectory) (sync f : ℕ → Call) :
    Ensures (verifyDirectory d sync f) p (WorkDone .verified p) := by
  apply workDone_of_body
  apply modify_bind
  apply ofResult_bind (fun _ _ => ⟨rfl,rfl,rfl⟩)
  intro digests _
  apply refuseIf_bind (fun _ => ⟨rfl,rfl,rfl⟩)
  intro _
  exact call_bind (fun _ => ⟨rfl,rfl,rfl⟩) ⟨rfl,rfl,rfl⟩

/-- A finished object has its charge to give back. -/
def Settled (p : Pending σ) : Prop :=
  p.state = .published ∨ p.state = .cancelled → p.reservation.release = true

structure Cleaned (p : Pending σ) (r : Except FileError Unit) (q : Pending σ) : Prop where
  size : q.reservation.size = p.reservation.size
  release : q.reservation.release = r.isOk
  hidden : Hidden p.unlinked → Hidden q.unlinked
  settled : Settled q

theorem cleanup_cleaned (c : Custody σ) (u : Place → Call) (h : Settled p) :
    Ensures (cleanup c u) p (Cleaned p) := by
  apply get_bind
  apply Ensures.ite
  · intro he
    exact .pure ⟨rfl,h he,id,h⟩
  · intro hl
    apply modify_bind
    have hh : Hidden p.unlinked → Hidden (p.unlinked ++ c.targets p.staged) :=
      fun hp => hp.append (c.hidden p.staged)
    cases lastFailure u (c.targets p.staged) with
    | none => exact ⟨rfl,rfl,hh,fun _ => rfl⟩
    | some e => exact ⟨rfl,rfl,hh,fun he => absurd he hl⟩

structure PublishDone (p : Pending σ) (r : Except FileError PublishedObject) (q : Pending σ) :
    Prop where
  reservation : q.reservation = p.reservation
  unlinked : q.unlinked = p.unlinked
  verified : r.isOk → p.state = .verified
  state : q.state = if r.isOk then .published else if p.state = .verified then .failed else p.state

theorem publishNamed_done (c : Custody σ) (rename : ℕ → Call) (f : Call) :
    Ensures (publishNamed c rename f) p (PublishDone p) := by
  apply get_bind
  apply refuseIf_bind
  · intro h
    refine ⟨rfl,rfl,nofun,?_⟩
    simp [Except.isOk,Except.toBool,h]
  · intro h
    have hs : p.state = .verified := not_not.mp h
    apply modify_bind
    apply ofResult_bind
    · intro e _
      refine ⟨rfl,rfl,nofun,?_⟩
      simp [Except.isOk,Except.toBool,hs]
    · intro a _
      exact ⟨rfl,rfl,fun _ => hs,rfl⟩

end Objects

/-- Building a tree removes at most a new directory of the tree itself. -/
theorem createDirectory_hidden (fs : TreeCalls) (pa : ℕ) (name : Text) (h : Hidden b.unlinked) :
    Ensures (createDirectory fs pa name) b fun _ b' => Hidden b'.unlinked := by
  apply call_bind (fun _ => h)
  cases fs.openDirectory ⟨some pa,name⟩ with
  | none => exact h
  | some e =>
    refine h.append ?_
    simp [Hidden]

theorem createParents_hidden (fs : TreeCalls) (parts : List Text) (pa : ℕ) (path : Text)
    (h : Hidden b.unlinked) :
    Ensures (createParents fs pa path parts) b fun _ b' => Hidden b'.unlinked := by
  induction parts generalizing pa path b with
  | nil => exact h
  | cons part parts ih =>
    apply get_bind
    cases b.paths.lookup (if path ≠ [] then path ++ '/' :: part else part) with
    | some i => exact ih i _ h
    | none =>
      refine (createDirectory_hidden fs pa part h).bind (fun i b' hb' => ?_) fun _ _ => id
      exact .modify_bind (ih i _ hb')

theorem createEntries_hidden (env : Portability M) (fs : TreeCalls) (es : List (ManifestEntry M))
    (h : Hidden b.unlinked) :
    Ensures (createEntries env fs es) b fun _ b' => Hidden b'.unlinked := by
  induction es generalizing b with
  | nil => exact h
  | cons e es ih =>
    have he : Ensures (createEntry env fs e) b fun _ b' => Hidden b'.unlinked := by
      apply ofResult_bind (fun _ _ => h)
      intro parts _
      refine (createParents_hidden fs _ 0 [] h).bind (fun parent b' hb' => ?_) fun _ _ => id
      exact call_bind (fun _ => hb') hb'
    exact he.bind (fun _ b' hb' => ih hb') fun _ _ => id

end FrankenRemote.Files
