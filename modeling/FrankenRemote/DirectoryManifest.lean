import FrankenRemote.Bytes

/-! Portable file trees. A manifest is accepted only if its entries and all directories that
their paths imply can exist side by side, also where the target ignores case. -/
namespace FrankenRemote.Files

open Bytes List

abbrev Text := List Char

/-- `str::len`. -/
def byteLength (s : Text) : ℕ := (s.map Char.utf8Size).sum

inductive FileError
  | invalidLimits | invalidRoot | unsafeRoot | invalidName | quota | invalidChunk |
      incomplete | integrity
  | conflict | retired
  | io (kind : ℕ)
  deriving DecidableEq, Repr

def maxTreeEntries : ℕ := 64

def maxTreeNodes : ℕ := 128

def maxTreeDepth : ℕ := 8

def maxTreePathBytes : ℕ := 1024

def maxTreeNamesBytes : ℕ := 16*1024

def stagingPrefix : Text := ['.','f','r','-','p','a','r','t','-']

/-- What the manifest takes from its libraries: the check of one component, the case mapping, and
the metadata with its commitment. -/
structure Portability (M : Type) where
  portable : Text → Bool
  lower : Text → Text
  commitment : List (Text × M) → Option Text
  regular : M
  directory : M

structure ManifestEntry (M : Type) where
  index : ℕ
  relPath : Text
  size : ℕ
  sha256Hex : Text
  hasMembers : Bool
  metadata : Option M
  deriving DecidableEq

structure DirectoryManifest (M : Type) where
  name : Text
  size : ℕ
  entries : List (ManifestEntry M)
  root : Text
  deriving DecidableEq

def lowerHash (hash : Text) : Bool :=
  hash.length = 64 ∧ hash.all fun c => ('0' ≤ c ∧ c ≤ '9') ∨ ('a' ≤ c ∧ c ≤ 'f')

def emptySha256 : Text := "e3b0c44298fc1c149afbf4c8996fb92427ae41e4649b934ca495991b7852b855".toList

section Manifest

variable {M : Type} [DecidableEq M] (env : Portability M)

def validateName (name : Text) : Except FileError Unit :=
  if 255 < byteLength name ∨ stagingPrefix.isPrefixOf name ∨ ¬env.portable name then
    .error .invalidName
  else .ok ()

def validateNames : List Text → Except FileError Unit
  | [] => .ok ()
  | part::parts => do
    validateName env part
    validateNames parts

def pathComponents (path : Text) : Except FileError (List Text) :=
  if path = [] ∨ maxTreePathBytes < byteLength path then .error .invalidName
  else if maxTreeDepth < (path.splitOn '/').length then .error .invalidName
  else do
    validateNames env (path.splitOn '/')
    .ok (path.splitOn '/')

def validateKind (e : ManifestEntry M) (structural : Bool) : Except FileError Unit :=
  match e.metadata with
  | none => .ok ()
  | some metadata =>
    if ¬structural ∨ metadata ≠ env.directory then .error .invalidName
    else if e.size ≠ 0 ∨ e.sha256Hex ≠ emptySha256 then .error .integrity
    else .ok ()

/-- The map from folded paths to paths, with a mark of the leaves. -/
abbrev Nodes := List (Text × Text × Bool)

def walk (nodes : Nodes) (path : Text) (n : ℕ) : List Text → Except FileError Nodes
  | [] => .ok nodes
  | part::rest =>
    let path := if n ≠ 0 then path ++ '/' :: part else part
    match nodes.lookup (env.lower path) with
    | some (existing,existingLeaf) =>
      if existing ≠ path ∨ rest = [] ∨ existingLeaf then .error .invalidName
      else walk nodes path (n+1) rest
    | none =>
      if maxTreeNodes < nodes.length+1 then .error .quota
      else walk ((env.lower path,path,rest.isEmpty)::nodes) path (n+1) rest

structure Scan where
  nodes : Nodes
  total : ℕ
  names : ℕ

def checked64 (a b : ℕ) : Except FileError ℕ := if a+b < 2^64 then .ok (a+b) else .error .quota

def scanEntry (structural : Bool) (s : Scan) (index : ℕ) (e : ManifestEntry M) :
    Except FileError Scan :=
  if e.index ≠ index ∨ e.hasMembers ∨ ¬lowerHash e.sha256Hex then .error .invalidName
  else do
    validateKind env e structural
    let parts ← pathComponents env e.relPath
    let names ← checked64 s.names (byteLength e.relPath)
    if maxTreeNamesBytes < names then .error .quota
    else
      let total ← checked64 s.total e.size
      let nodes ← walk env s.nodes [] 0 parts
      .ok ⟨nodes,total,names⟩

def scanEntries (structural : Bool) : Scan → ℕ → List (ManifestEntry M) → Except FileError Scan
  | s, _, [] => .ok s
  | s, index, e::entries => do
    let s ← scanEntry env structural s index e
    scanEntries structural s (index+1) entries

/-- The commitment over all entries, a file with its regular metadata. -/
def commits (entries : List (ManifestEntry M)) (expected : Text) : Prop :=
  env.commitment (entries.map fun e => (e.relPath,e.metadata.getD env.regular)) = some expected

instance (entries : List (ManifestEntry M)) (expected : Text) :
    Decidable (commits env entries expected) :=
  inferInstanceAs (Decidable (_ = _))

def validated (name : Text) (size : ℕ) (entries : List (ManifestEntry M)) (root : Text)
    (metadataRoot : Option Text) : Except FileError (DirectoryManifest M) := do
  validateName env name
  if maxTreeEntries < entries.length ∨ ¬lowerHash root ∨ ∃ r ∈ metadataRoot, ¬lowerHash r then
    .error .invalidLimits
  else
    let s ← scanEntries env metadataRoot.isSome ⟨[],0,byteLength name⟩ 0 entries
    if s.total ≠ size then .error .integrity
    else if ∃ expected ∈ metadataRoot, ¬commits env entries expected then .error .integrity
    else .ok ⟨name,size,entries,root⟩

end Manifest

/-! Paths and their components. -/

def joinParts (parts : List Text) : Text := ['/'].intercalate parts

def ManifestEntry.parts {M : Type} (e : ManifestEntry M) : List Text := e.relPath.splitOn '/'

def ManifestEntry.implied {M : Type} (e : ManifestEntry M) : List Text :=
  (e.parts.dropLast.inits.filter (· ≠ [])).map joinParts

theorem joinParts_snoc (pre : List Text) (part : Text) :
    joinParts (pre++[part]) = if pre.length ≠ 0 then joinParts pre ++ '/' :: part else part := by
  induction pre with
  | nil => simp [joinParts]
  | cons a pre ih =>
    cases pre with
    | nil => simp [joinParts]
    | cons b pre => simpa [joinParts,intercalate_cons_cons] using ih

theorem joinParts_parts {M : Type} (e : ManifestEntry M) : joinParts e.parts = e.relPath :=
  intercalate_splitOn '/'

theorem not_mem_of_mem_splitOn {α : Type} [BEq α] [LawfulBEq α] {x} {xs part : List α}
    (h : part ∈ xs.splitOn x) : x ∉ part := by
  induction xs generalizing part with
  | nil =>
    simp only [splitOn_nil,mem_singleton] at h
    simp [h]
  | cons a xs ih =>
    rw [List.splitOn,splitOnP_cons_eq_if_modifyHead] at h
    by_cases ha : a == x
    · rw [if_pos ha] at h
      rcases mem_cons.mp h with rfl | h
      · simp
      · exact ih h
    · rw [if_neg ha] at h
      cases hs : xs.splitOnP (· == x) with
      | nil => simp [hs] at h
      | cons first rest =>
        have hf : x ∉ first := ih (by rw [List.splitOn,hs]; simp)
        rw [hs,modifyHead_cons] at h
        rcases mem_cons.mp h with rfl | h
        · have hne : x ≠ a := by
            rintro rfl
            simp at ha
          simp [hne,hf]
        · exact ih (by rw [List.splitOn,hs]; simp [h])

theorem mem_implied {M : Type} {e : ManifestEntry M} {d} :
    d ∈ e.implied ↔ ∃ q, q ≠ [] ∧ q <+: e.parts ∧ q ≠ e.parts ∧ joinParts q = d := by
  have hpar : e.parts ≠ [] := splitOn_ne_nil '/' e.relPath
  simp only [ManifestEntry.implied,mem_map,mem_filter,mem_inits,ne_eq,decide_not,Bool.not_eq_true',
    decide_eq_false_iff_not]
  constructor
  · rintro ⟨q,⟨hq,hne⟩,rfl⟩
    refine ⟨q,hne,hq.trans ( dropLast_prefix _),?_,rfl⟩
    rintro rfl
    have hlen := hq.length_le
    have hpos := length_pos_of_ne_nil hpar
    rw [length_dropLast] at hlen
    omega
  · rintro ⟨q,hne,hq,hp,rfl⟩
    refine ⟨q,⟨?_,hne⟩,rfl⟩
    obtain ⟨rest,hr⟩ := hq
    have hr' : rest ≠ [] := by
      rintro rfl
      exact hp (by simpa using hr)
    rw [← hr,dropLast_append_of_ne_nil hr']
    exact prefix_append _ _

/-! The map of nodes. -/

section Nodes

variable {M : Type} (env : Portability M) {nodes nodes' : Nodes} {path : Text} {n : ℕ}
    {pre rest : List Text}

/-- Every step of the path is in the map, under its own folded path. -/
def Marked (nodes : Nodes) (pre rest : List Text) : Prop :=
  ∀ r, r ≠ [] → r <+: rest →
    (env.lower (joinParts (pre++r)),joinParts (pre++r),decide (r = rest)) ∈ nodes

theorem mem_of_lookup {k b} (h : nodes.lookup k = some b) : (k,b) ∈ nodes := by
  obtain ⟨_,_,rfl,_⟩ := lookup_eq_some_iff.mp h
  simp

theorem not_mem_of_lookup {k} (h : nodes.lookup k = none) : k ∉ nodes.map Prod.fst := by
  intro hm
  obtain ⟨entry,he,rfl⟩ := mem_map.mp hm
  have hne := lookup_eq_none_iff.mp h entry he
  simp at hne

structure Walked (nodes nodes' : Nodes) (pre rest : List Text) : Prop where
  keys : (nodes'.map Prod.fst).Nodup
  grows : nodes ⊆ nodes'
  marked : Marked env nodes' pre rest
  /-- The leaf was not known before. -/
  leaf : rest ≠ [] → env.lower (joinParts (pre++rest)) ∉ nodes.map Prod.fst
  small : nodes'.length ≤ maxTreeNodes

theorem Marked.cons {part} (hm : (env.lower (joinParts (pre++[part])),joinParts (pre++[part]),
    decide (rest = [])) ∈ nodes) (h : Marked env nodes (pre++[part]) rest) : Marked env nodes pre
      (part::rest) := by
  intro r hr hp
  cases r with
  | nil => exact absurd rfl hr
  | cons a r =>
    obtain ⟨rfl,htail⟩ := cons_prefix_cons.mp hp
    by_cases hnil : r = []
    · subst hnil
      simpa [eq_comm] using hm
    · simpa [append_assoc] using h r hnil htail

theorem walk_walked (hpath : path = joinParts pre) (hn : n = pre.length)
    (hkeys : (nodes.map Prod.fst).Nodup)
    (hs : nodes.length ≤ maxTreeNodes) (h : walk env nodes path n rest = .ok nodes') :
    Walked env nodes nodes' pre rest := by
  induction rest generalizing nodes path n pre with
  | nil =>
    cases h
    refine ⟨hkeys,fun _ => id,?_,by simp,hs⟩
    intro r hr hp
    exact absurd (prefix_nil.mp hp) hr
  | cons part rest ih =>
    have hnx : (if n ≠ 0 then path ++ '/' :: part else part) = joinParts (pre++[part]) := by
      rw [joinParts_snoc,hpath,hn]
    have hla : pre++[part]++rest = pre ++ part::rest := by simp
    simp only [walk,hnx] at h
    split at h
    · rename_i existing existingLeaf hl
      split_ifs at h with hbad
      simp only [not_or,not_not,Bool.not_eq_true] at hbad
      obtain ⟨rfl,hre,rfl⟩ := hbad
      have hw := ih rfl (by simp [hn]) hkeys hs h
      refine ⟨hw.keys,hw.grows,.cons env ?_ hw.marked,fun _ => ?_,hw.small⟩
      · rw [decide_eq_false hre]
        exact hw.grows (mem_of_lookup hl)
      · rw [← hla]
        exact hw.leaf hre
    · rename_i hl
      split_ifs at h with hfull
      have hf := not_mem_of_lookup hl
      have hw := ih rfl (by simp [hn]) (by simpa [hkeys] using hf)
        (by simp only [length_cons]; omega) h
      refine ⟨hw.keys,fun x hx => hw.grows (mem_cons_of_mem _ hx),.cons env ?_ hw.marked,
        fun _ => ?_,hw.small⟩
      · apply hw.grows
        cases rest <;> simp
      · by_cases hre : rest = []
        · subst hre
          exact hf
        · intro hm
          apply hw.leaf hre
          rw [hla,map_cons]
          exact mem_cons_of_mem _ hm

end Nodes

/-! Accepted manifests. -/

section Accepted

variable {M : Type} (env : Portability M) {structural : Bool} {s t : Scan} {i : ℕ}
  {e : ManifestEntry M} {done : List (ManifestEntry M)}

/-- What the loop knows of the entries it has passed. -/
structure Scanned (done : List (ManifestEntry M)) (s : Scan) : Prop where
  keys : (s.nodes.map Prod.fst).Nodup
  small : s.nodes.length ≤ maxTreeNodes
  marked : ∀ e ∈ done, Marked env s.nodes [] e.parts
  distinct : (done.map fun e => env.lower e.relPath).Nodup
  total : s.total = (done.map ManifestEntry.size).sum
  total_lt : s.total < 2^64
  components : ∀ e ∈ done, pathComponents env e.relPath = .ok e.parts

theorem Marked.leaf {nodes} (h : Marked env nodes [] e.parts) :
    (env.lower e.relPath,e.relPath,true) ∈ nodes := by
  have hleaf := h e.parts (splitOn_ne_nil '/' e.relPath) (prefix_refl _)
  simpa [joinParts_parts] using hleaf

theorem checked64_eq_ok {a b c} : checked64 a b = .ok c ↔ a+b = c ∧ c < 2^64 := by
  unfold checked64
  split_ifs with hlt
  · rw [Except.ok.injEq]
    exact ⟨fun h => ⟨h,h ▸ hlt⟩,fun h => h.1⟩
  · simp only [false_iff]
    omega

variable {parts : List Text}

theorem pathComponents_eq {path} (h : pathComponents env path = .ok parts) :
    parts = path.splitOn '/' := by
  unfold pathComponents at h
  split_ifs at h
  obtain ⟨_,_,h⟩ := bind_eq_ok.mp h
  cases h
  rfl

theorem Scanned.entry [DecidableEq M] (h : Scanned env done s)
    (hscan : scanEntry env structural s i e = .ok t) : Scanned env (done++[e]) t := by
  unfold scanEntry at hscan
  split_ifs at hscan
  obtain ⟨_,_,hscan⟩ := bind_eq_ok.mp hscan
  obtain ⟨parts,hp,hscan⟩ := bind_eq_ok.mp hscan
  obtain ⟨_,_,hscan⟩ := bind_eq_ok.mp hscan
  split_ifs at hscan
  obtain ⟨total,ht,hscan⟩ := bind_eq_ok.mp hscan
  obtain ⟨nodes,hn,hscan⟩ := bind_eq_ok.mp hscan
  cases hscan
  obtain rfl : parts = e.parts := pathComponents_eq env hp
  have hw : Walked env s.nodes nodes [] e.parts := walk_walked env rfl rfl h.keys h.small hn
  obtain ⟨rfl,hlt⟩ := checked64_eq_ok.mp ht
  have hleaf : env.lower e.relPath ∉ s.nodes.map Prod.fst := by
    simpa [joinParts_parts] using hw.leaf (splitOn_ne_nil '/' e.relPath)
  constructor
  · exact hw.keys
  · exact hw.small
  · simp only [forall_mem_append,forall_mem_singleton]
    exact ⟨fun x hx r hr hpre => hw.grows (h.marked x hx r hr hpre),hw.marked⟩
  · rw [map_append,nodup_append]
    refine ⟨h.distinct,by simp,?_⟩
    intro a ha b hb hab
    obtain ⟨x,hx,rfl⟩ := mem_map.mp ha
    simp only [map_cons,map_nil,mem_singleton] at hb
    apply hleaf
    rw [← hb,← hab]
    exact mem_map_of_mem (f := Prod.fst) ((h.marked x hx).leaf env)
  · simp [h.total]
  · exact hlt
  · simp only [forall_mem_append,forall_mem_singleton]
    exact ⟨h.components,hp⟩

theorem Scanned.all [DecidableEq M] {es} (h : Scanned env done s)
    (hscan : scanEntries env structural s i es = .ok t) : Scanned env (done++es) t := by
  induction es generalizing s i done with
  | nil =>
    cases hscan
    simpa using h
  | cons e es ih =>
    obtain ⟨u,hu,hscan⟩ := bind_eq_ok.mp hscan
    simpa using ih (h.entry env hu) hscan

theorem Scanned.unique (h : Scanned env done s) {k a b} (ha : (k,a) ∈ s.nodes)
    (hb : (k,b) ∈ s.nodes) : a = b := by
  have heq := inj_on_of_nodup_map h.keys ha hb rfl
  simpa using heq

theorem Scanned.directory (h : Scanned env done s) (he : e ∈ done) {d} (hd : d ∈ e.implied) :
    (env.lower d,d,false) ∈ s.nodes := by
  obtain ⟨q,hq,hpre,hp,rfl⟩ := mem_implied.mp hd
  have hm := h.marked e he q hq hpre
  rwa [decide_eq_false hp,nil_append] at hm

theorem validateNames_eq_ok (h : validateNames env parts = .ok ()) :
    ∀ part ∈ parts, env.portable part = true := by
  induction parts with
  | nil => simp
  | cons part parts ih =>
    obtain ⟨_,hpart,h⟩ := bind_eq_ok.mp h
    rw [forall_mem_cons]
    refine ⟨?_,ih h⟩
    unfold validateName at hpart
    split_ifs at hpart with hbad
    simp only [not_or,not_not] at hbad
    exact hbad.2.2

theorem pathComponents_bounded {path} (h : pathComponents env path = .ok parts) :
    parts.length ≤ maxTreeDepth ∧ ∀ part ∈ parts, env.portable part = true := by
  obtain rfl := pathComponents_eq env h
  unfold pathComponents at h
  split_ifs at h with _ hd
  obtain ⟨_,hn,_⟩ := bind_eq_ok.mp h
  exact ⟨by omega,validateNames_eq_ok env hn⟩

/-- All paths that materialising the entries creates. -/
def nodePaths (entries : List (ManifestEntry M)) : Finset Text :=
  (entries.flatMap fun e => e.relPath :: e.implied).toFinset

theorem Scanned.card_le (h : Scanned env done s) : (nodePaths done).card ≤ maxTreeNodes := by
  have hs : nodePaths done ⊆ (s.nodes.map fun x => x.2.1).toFinset := by
    intro d hd
    simp only [nodePaths,mem_toFinset,mem_flatMap,mem_cons] at hd
    rw [mem_toFinset,mem_map]
    obtain ⟨e,he,rfl | hd⟩ := hd
    · exact ⟨_,(h.marked e he).leaf env,rfl⟩
    · exact ⟨_,h.directory env he hd,rfl⟩
  calc (nodePaths done).card ≤ (s.nodes.map fun x => x.2.1).toFinset.card := Finset.card_le_card hs
    _ ≤ (s.nodes.map fun x => x.2.1).length := toFinset_card_le _
    _ = s.nodes.length := length_map _
    _ ≤ maxTreeNodes := h.small

/-- No entry lies above another one. -/
theorem Scanned.not_above (h : Scanned env done s) {e f} (he : e ∈ done) (hf : f ∈ done)
    (hp : e.parts <+: f.parts) : e.parts = f.parts := by
  by_contra hne
  have hi : e.relPath ∈ f.implied :=
    mem_implied.mpr ⟨e.parts,splitOn_ne_nil '/' e.relPath,hp,hne,joinParts_parts e⟩
  have hs := h.unique env ((h.marked e he).leaf env) (h.directory env hf hi)
  simp at hs

theorem manifest_safe [DecidableEq M]
    (hportable : ∀ c, env.portable c = true → c ≠ [] ∧ c ≠ ['.'] ∧ c ≠ ['.','.'] ∧ '\\' ∉ c)
    {name root : Text} {size : ℕ} {entries : List (ManifestEntry M)} {metadataRoot : Option Text}
    {m : DirectoryManifest M} (h : validated env name size entries root metadataRoot = .ok m) :
    m.entries = entries ∧ m.size = size ∧ entries.length ≤ maxTreeEntries ∧
    (nodePaths entries).card ≤ maxTreeNodes ∧
    (∀ e ∈ entries, e.parts.length ≤ maxTreeDepth ∧ joinParts e.parts = e.relPath ∧ ∀ c ∈ e.parts,
      env.portable c = true ∧ c ≠ [] ∧ c ≠ ['.'] ∧ c ≠ ['.','.'] ∧ '/' ∉ c ∧ '\\' ∉ c) ∧
    (∀ e ∈ entries, ∀ f ∈ entries, e.parts <+: f.parts → e.parts = f.parts) ∧
    (entries.map fun e => env.lower e.relPath).Nodup ∧
    (∀ e ∈ entries, ∀ f ∈ entries, ∀ d ∈ f.implied, env.lower d ≠ env.lower e.relPath) ∧
    (∀ e ∈ entries, ∀ f ∈ entries, ∀ d ∈ e.implied, ∀ d' ∈ f.implied, env.lower d = env.lower d' →
      d = d') ∧
    (entries.map ManifestEntry.size).sum = size ∧ size < 2^64 := by
  obtain ⟨_,_,h⟩ := bind_eq_ok.mp h
  split at h
  · cases h
  rename_i hl
  obtain ⟨s,hscan,h⟩ := bind_eq_ok.mp h
  split_ifs at h with ht
  cases h
  have hst : Scanned env [] ⟨[],0,byteLength name⟩ := by constructor <;> simp
  have hs : Scanned env entries s := hst.all env hscan
  have hsi : s.total = size := not_not.mp ht
  simp only [not_or,not_lt] at hl
  refine ⟨rfl,rfl,hl.1,hs.card_le env,?_,fun e he f hf => hs.not_above env he hf,
    hs.distinct,?_,?_,by rw [← hs.total,hsi],hsi ▸ hs.total_lt⟩
  · intro e he
    obtain ⟨hdep,hn⟩ := pathComponents_bounded env (hs.components e he)
    refine ⟨hdep,joinParts_parts e,fun c hc => ?_⟩
    obtain ⟨hem,hdot,hu,hback⟩ := hportable c (hn c hc)
    exact ⟨hn c hc,hem,hdot,hu,not_mem_of_mem_splitOn hc,hback⟩
  · intro e he f hf d hd hsm
    have hleaf := (hs.marked e he).leaf env
    rw [← hsm] at hleaf
    have hequ := hs.unique env hleaf (hs.directory env hf hd)
    simp at hequ
  · intro e he f hf d hd d' hd' hsm
    have hnode := hs.directory env he hd
    rw [hsm] at hnode
    exact congrArg Prod.fst (hs.unique env hnode (hs.directory env hf hd'))

end Accepted

/-- Plain names, and the ASCII case mapping. -/
def samplePortability : Portability Bool where
  portable c := c ≠ [] ∧ c ≠ ['.'] ∧ c ≠ ['.','.'] ∧ '\\' ∉ c
  lower := List.map Char.toLower
  commitment _ := none
  regular := false
  directory := true

def sampleEntries : List (ManifestEntry Bool) :=
  [⟨0,['a','/','b'],3,emptySha256,false,none⟩,⟨1,['a','/','C'],4,emptySha256,false,none⟩,
    ⟨2,['d'],5,emptySha256,false,none⟩]

theorem manifest_safe_sample : validated samplePortability ['t'] 12 sampleEntries emptySha256 none =
      .ok ⟨['t'],12,sampleEntries,emptySha256⟩ ∧ (nodePaths sampleEntries).card ≤ maxTreeNodes := by
  have hv : validated samplePortability ['t'] 12 sampleEntries emptySha256 none =
      .ok ⟨['t'],12,sampleEntries,emptySha256⟩ := by decide +kernel
  refine ⟨hv,(manifest_safe samplePortability ?_ hv).2.2.2.1⟩
  intro c hc
  simpa [samplePortability] using hc

end FrankenRemote.Files
