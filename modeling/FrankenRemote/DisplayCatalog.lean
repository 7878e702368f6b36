import FrankenRemote.Input
import FrankenRemote.Transition
import FrankenRemote.Wire
import FrankenRemote.Primitives

/-! The host's displays. Every change of the topology gives each display a new handle under a new
geometry generation, so that nothing of an earlier catalog names a display of a later one. -/
namespace FrankenRemote.Displays

open Wire List

def maxDisplays : ℕ := 8

/-- The ceilings of the protocol limits that a display is held to. -/
structure PixelLimits where
  maxDimensionPixels : ℕ
  maxCodedPixels : ℕ

def PixelLimits.validateCodedDimensions (limits : PixelLimits) (width height : ℕ) : Bool :=
  width ≠ 0 ∧ height ≠ 0 ∧ width ≤ limits.maxDimensionPixels ∧ height ≤ limits.maxDimensionPixels ∧
    width*height ≤ limits.maxCodedPixels

structure Display where
  handle : ℕ
  geometry : ℕ
  x : Int32
  y : Int32
  pixelWidth : ℕ
  pixelHeight : ℕ
  logicalWidth : ℕ
  logicalHeight : ℕ
  scaleNumerator : ℕ
  scaleDenominator : ℕ
  rotation : ℕ
  deriving DecidableEq

namespace Display

/-- The last addressable pixel is a coordinate, though the edge after it may be none. -/
def lastFits (origin : Int32) (size : ℕ) : Bool := origin.toInt + size - 1 < 2^31

def validate (d : Display) (limits : PixelLimits) : Except WireError Unit :=
  if d.handle = 0 then .error .invalidBinding
  else if ¬limits.validateCodedDimensions d.pixelWidth d.pixelHeight ∨
      ¬limits.validateCodedDimensions d.logicalWidth d.logicalHeight then .error .resourceLimit
  else if ¬lastFits d.x d.pixelWidth ∨ ¬lastFits d.y d.pixelHeight then .error .arithmeticOverflow
  else if d.scaleNumerator = 0 ∨ 65536 < d.scaleNumerator ∨ d.scaleDenominator = 0 ∨
      65536 < d.scaleDenominator ∨ 16*d.scaleDenominator < d.scaleNumerator ∨
      16*d.scaleNumerator < d.scaleDenominator ∨ 3 < d.rotation then
    .error .invalidValue
  else .ok ()

def containsPixel (d : Display) (x y : Int32) : Bool :=
  d.x.toInt ≤ x.toInt ∧ x.toInt < d.x.toInt + d.pixelWidth ∧
    d.y.toInt ≤ y.toInt ∧ y.toInt < d.y.toInt + d.pixelHeight

end Display

inductive DisplayMappingError
  | displayNotFound | ambiguousMapping | unmappedCoordinate | staleGeometry
  deriving DecidableEq

structure Catalog where
  revision : ℕ
  displays : List Display
  count_le : displays.length ≤ maxDisplays
  distinct : displays.Pairwise (·.handle ≠ ·.handle)

namespace Catalog

/-- The loop over the entries, with the handles before each. -/
def check (limits : PixelLimits) : List ℕ → List Display → Except WireError Unit
  | _, [] => .ok ()
  | before, d::ds =>
    match d.validate limits with
    | .error e => .error e
    | .ok () =>
      if d.handle ∈ before then .error .invalidBinding else check limits (d.handle::before) ds

theorem check_distinct {l before ds} (h : check l before ds = .ok ()) :
    ds.Pairwise (·.handle ≠ ·.handle) ∧ ∀ d ∈ ds, d.handle ∉ before := by
  induction ds generalizing before with
  | nil => simp
  | cons d ds ih =>
    rw [check] at h
    split at h
    · cases h
    split at h
    · cases h
    rename_i hnew
    obtain ⟨hp,ho⟩ := ih h
    refine ⟨pairwise_cons.mpr ⟨fun d' hd' heq => ho d' hd' ?_,hp⟩,forall_mem_cons.mpr ⟨hnew,?_⟩⟩
    · rw [← heq]
      exact .head _
    · exact fun d' hd' hb => ho d' hd' (.tail _ hb)

def new (revision : ℕ) (entries : List Display) (limits : PixelLimits) : Except WireError Catalog :=
  if revision = 0 then .error .invalidValue
  else if hc : maxDisplays < entries.length then .error .resourceLimit
  else
    match h : check limits [] entries with
    | .error e => .error e
    | .ok () => .ok ⟨revision,entries,not_lt.mp hc,(check_distinct h).1⟩

theorem new_displays {revision es l c} (h : new revision es l = .ok c) : c.displays = es := by
  unfold new at h
  split at h
  · cases h
  split at h
  · cases h
  split at h
  · cases h
  · cases h
    rfl

def geometryGeneration (c : Catalog) : Option ℕ := c.displays.head?.map (·.geometry)

def mapLoop (x y : Int32) : Option Display → List Display → Except DisplayMappingError Display
  | matched, [] => matched.elim (.error .unmappedCoordinate) .ok
  | matched, d::ds =>
    if d.containsPixel x y then
      match matched with
      | some _ => .error .ambiguousMapping
      | none => mapLoop x y (some d) ds
    else mapLoop x y matched ds

def mapPixelCoordinate (c : Catalog) (x y : Int32) : Except DisplayMappingError Display :=
  mapLoop x y none c.displays

def find (c : Catalog) (handle : ℕ) : Option Display := c.displays.find? (·.handle = handle)

theorem mapLoop_eq_ok {x y matched ds d} :
    mapLoop x y matched ds = .ok d ↔ matched.toList ++ ds.filter (·.containsPixel x y) = [d] := by
  induction ds generalizing matched with
  | nil => cases matched <;> simp [mapLoop]
  | cons e ds ih =>
    by_cases he : e.containsPixel x y = true
    · cases matched <;> simp [mapLoop,he,ih]
    · cases matched <;> simp [mapLoop,he,ih]

theorem mapPixelCoordinate_eq_ok {c : Catalog} {x y d} : c.mapPixelCoordinate x y = .ok d ↔
    d ∈ c.displays ∧ d.containsPixel x y = true ∧ ∀ d' ∈ c.displays, d'.containsPixel x y = true →
      d' = d := by
  have hn : (c.displays.filter (·.containsPixel x y)).Nodup :=
    (c.distinct.imp fun h heq => h (congrArg _ heq)).filter _
  rw [mapPixelCoordinate,mapLoop_eq_ok,Option.toList_none,nil_append]
  constructor
  · intro h
    obtain ⟨hd,hc⟩ := mem_filter.mp (h ▸ mem_singleton_self d)
    exact ⟨hd,hc,fun d' hd' hc' => mem_singleton.mp (h ▸ mem_filter.mpr ⟨hd',hc'⟩)⟩
  · rintro ⟨hd,hc,hu⟩
    refine perm_singleton.mp ((perm_ext_iff_of_nodup hn (nodup_singleton d)).mpr fun d' => ?_)
    rw [mem_filter,mem_singleton]
    exact ⟨fun h => hu d' h.1 h.2,fun h => h ▸ ⟨hd,hc⟩⟩

end Catalog

/-- A monitor as the platform describes it, with the used bytes of its connector's name. -/
structure HostMonitorDescriptor where
  connectorId : List UInt8
  x : Int32
  y : Int32
  pixelWidth : ℕ
  pixelHeight : ℕ
  logicalWidth : ℕ
  logicalHeight : ℕ
  scaleNumerator : ℕ
  scaleDenominator : ℕ
  rotation : ℕ
  connector_le : connectorId.length ≤ 32
  deriving DecidableEq

def HostMonitorDescriptor.matchesTopology (m other : HostMonitorDescriptor) : Bool := m = other

/-- The display of a monitor, under the handle made of the generation and the instance. -/
def HostMonitorDescriptor.display (m : HostMonitorDescriptor) (generation instanceCounter : ℕ) :
    Display :=
  ⟨generation <<< 64 ||| instanceCounter,generation,m.x,m.y,m.pixelWidth,m.pixelHeight,
    m.logicalWidth,m.logicalHeight,m.scaleNumerator,m.scaleDenominator,m.rotation⟩

structure TopologyUpdate where
  catalog : Catalog
  geometryChanged : Bool
  addedCount : ℕ
  removedCount : ℕ

structure DisplayCatalogTracker where
  geometryGeneration : ℕ
  revision : ℕ
  instanceCounter : ℕ
  activeCatalog : Catalog
  limits : PixelLimits
  currentMonitors : List (HostMonitorDescriptor × ℕ)

/-- The displays of the monitors, and the counter that the loop leaves also where it fails. -/
def admitMonitors (limits : PixelLimits) (generation : ℕ) :
    ℕ → List HostMonitorDescriptor → Except WireError (List Display) × ℕ
  | counter, [] => (.ok [],counter)
  | counter, m::ms =>
    match checkedAdd counter 1 with
    | none => (.error .resourceLimit,counter)
    | some next =>
      match (m.display generation counter).validate limits with
      | .error e => (.error e,next)
      | .ok () => (admitMonitors limits generation next ms).map (·.map
        (m.display generation counter :: ·)) id

/-- The handles of one generation lie between those of its neighbours. -/
theorem admitMonitors_handles {l g counter ms ds} (h : (admitMonitors l g counter ms).1 = .ok ds) :
    ∀ d ∈ ds, g*2^64 ≤ d.handle ∧ d.handle < (g+1)*2^64 := by
  induction ms generalizing counter ds with
  | nil =>
    cases h
    nofun
  | cons m ms ih =>
    rw [admitMonitors] at h
    split at h
    · cases h
    rename_i next hn
    obtain ⟨rfl,hlt⟩ := checkedAdd_eq_some.mp hn
    split at h
    · cases h
    simp only [Prod.map] at h
    cases hr : (admitMonitors l g (counter+1) ms).1 with
    | error e => simp [hr,Except.map] at h
    | ok rest =>
      rw [hr] at h
      cases h
      refine forall_mem_cons.mpr ⟨?_,ih hr⟩
      simp only [HostMonitorDescriptor.display]
      rw [← Nat.shiftLeft_add_eq_or_of_lt (by omega) g,Nat.shiftLeft_eq]
      omega

namespace DisplayCatalogTracker

def new (limits : PixelLimits) : DisplayCatalogTracker := ⟨0,1,1,⟨1,[],by decide,.nil⟩,limits,[]⟩

def updateTopology (t : DisplayCatalogTracker) (monitors : List HostMonitorDescriptor) :
    Except WireError TopologyUpdate × DisplayCatalogTracker :=
  if maxDisplays < monitors.length then (.error .resourceLimit,t)
  else if t.currentMonitors.length = monitors.length ∧
      (t.currentMonitors.zip monitors).all fun c => c.1.1.matchesTopology c.2 then
    (.ok ⟨t.activeCatalog,false,0,0⟩,t)
  else
    match checkedAdd t.geometryGeneration 1, checkedAdd t.revision 1 with
    | some nextGen, some nextRev =>
      let result := admitMonitors t.limits nextGen t.instanceCounter monitors
      let counted := {t with instanceCounter := result.2}
      match result.1 with
      | .error e => (.error e,counted)
      | .ok displays =>
        match Catalog.new nextRev displays t.limits with
        | .error e => (.error e,counted)
        | .ok catalog =>
          let added := monitors.countP fun m => ¬t.currentMonitors.any (·.1.matchesTopology m)
          let removed := t.currentMonitors.countP fun c => ¬monitors.any (·.matchesTopology c.1)
          (.ok ⟨catalog,true,added,removed⟩,{counted with
            geometryGeneration := nextGen
            revision := nextRev
            activeCatalog := catalog
            currentMonitors := monitors.zip (displays.map (·.handle))})
    | _, _ => (.error .resourceLimit,t)

def mapCoordinate (t : DisplayCatalogTracker) (x y : Int32) (geometry : ℕ) :
    Except DisplayMappingError Display :=
  if geometry ≠ t.geometryGeneration then
    .error .staleGeometry else t.activeCatalog.mapPixelCoordinate x y

variable {t : DisplayCatalogTracker} {xs : List HostMonitorDescriptor}

theorem unchanged_iff {current : List (HostMonitorDescriptor × ℕ)} :
    (current.length = xs.length ∧
      (current.zip xs).all (fun c => c.1.1.matchesTopology c.2) = true) ↔
      current.map (·.1) = xs := by
  induction current generalizing xs with
  | nil => cases xs <;> simp
  | cons c current ih =>
    cases xs with
    | nil => simp
    | cons m ms =>
      simp only [length_cons,zip_cons_cons,all_cons,Bool.and_eq_true,map_cons,List.cons.injEq,
        ← ih,HostMonitorDescriptor.matchesTopology,decide_eq_true_eq,add_left_inj]
      tauto

/-- What an update can do. -/
theorem updateTopology_ensures {P : Except WireError TopologyUpdate × DisplayCatalogTracker → Prop}
    (he : ∀ e counter, t.currentMonitors.map (·.1) ≠ xs ∨ counter = t.instanceCounter →
      P (.error e,{t with instanceCounter := counter}))
    (hsame : t.currentMonitors.map (·.1) = xs → P (.ok ⟨t.activeCatalog,false,0,0⟩,t))
    (hnew : t.currentMonitors.map (·.1) ≠ xs → ∀ cat added removed counter current,
      (∀ d ∈ cat.displays, (t.geometryGeneration+1)*2^64 ≤ d.handle ∧
        d.handle < (t.geometryGeneration+2)*2^64) →
      P (.ok ⟨cat,true,added,removed⟩,
        ⟨t.geometryGeneration+1,t.revision+1,counter,cat,t.limits,current⟩)) :
    P (t.updateTopology xs) := by
  unfold updateTopology
  split
  · exact he _ _ (.inr rfl)
  split
  · rename_i hu
    exact hsame (unchanged_iff.mp hu)
  rename_i hch
  rw [unchanged_iff] at hch
  split
  · rename_i nextGen nextRev hg hr
    obtain ⟨rfl,_⟩ := checkedAdd_eq_some.mp hg
    obtain ⟨rfl,_⟩ := checkedAdd_eq_some.mp hr
    dsimp only
    split
    · exact he _ _ (.inl hch)
    rename_i displays hd
    split
    · exact he _ _ (.inl hch)
    rename_i cat hc
    refine hnew hch cat _ _ _ _ ?_
    rw [Catalog.new_displays hc]
    exact admitMonitors_handles hd
  · exact he _ _ (.inl hch)

/-! Runs. -/

def step (t : DisplayCatalogTracker) (monitors : List HostMonitorDescriptor) :
    Except WireError TopologyUpdate × DisplayCatalogTracker := t.updateTopology monitors

abbrev Event := Transition.Event DisplayCatalogTracker (List HostMonitorDescriptor)
    (Except WireError TopologyUpdate)

/-- Every handle of the run was made under a generation up to the present one. -/
structure Used (past : List Event) (t : DisplayCatalogTracker) : Prop where
  active : ∀ d ∈ t.activeCatalog.displays, d.handle < (t.geometryGeneration+1)*2^64
  past : ∀ e ∈ past, ∀ u, e.reply = .ok u →
    ∀ d ∈ u.catalog.displays, d.handle < (t.geometryGeneration+1)*2^64

theorem used_run (l : PixelLimits) (inputs : List (List HostMonitorDescriptor)) :
    Used (Transition.trace step (new l) inputs) (Transition.final step (new l) inputs) := by
  refine Transition.history_invariant step ⟨nofun,nofun⟩ (fun past t xs h => ?_) inputs
  refine updateTopology_ensures (P := fun r => Used (past ++ [⟨t,xs,r.1⟩]) r.2) (fun _ _ _ => ?_)
    (fun _ => ?_) fun _ _ _ _ _ _ hds => ?_
  · exact ⟨h.active,forall_mem_snoc.mpr ⟨h.past,nofun⟩⟩
  · refine ⟨h.active,forall_mem_snoc.mpr ⟨h.past,fun u hu => ?_⟩⟩
    cases hu
    exact h.active
  · refine ⟨fun d hd => (hds d hd).2,forall_mem_snoc.mpr ⟨fun e he u hu d hd => ?_,fun u hu => ?_⟩⟩
    · exact (h.past e he u hu d hd).trans_le (Nat.mul_le_mul_right _ (Nat.le_succ _))
    · cases hu
      exact fun d hd => (hds d hd).2

/-- What an update does after the updates `past`. -/
structure Fenced (past : List Event) (t : DisplayCatalogTracker)
    (monitors : List HostMonitorDescriptor)
    (r : Except WireError TopologyUpdate × DisplayCatalogTracker) : Prop where
  changed : ∀ u, r.1 = .ok u → u.geometryChanged = true →
    t.geometryGeneration < r.2.geometryGeneration ∧ t.revision < r.2.revision ∧
      r.2.activeCatalog = u.catalog ∧
    ∀ d ∈ u.catalog.displays, ∀ e ∈ past, ∀ u', e.reply = .ok u' →
      ∀ d' ∈ u'.catalog.displays, d'.handle ≠ d.handle
  kept : ∀ u, r.1 = .ok u → u.geometryChanged = false → r.2 = t ∧ u.catalog = t.activeCatalog
  unchanged : t.currentMonitors.map (·.1) = monitors → r.2 = t ∧ ∀ u, r.1 = .ok u →
    u.geometryChanged = false
  failed : ∀ e, r.1 = .error e → r.2 = {t with instanceCounter := r.2.instanceCounter}

theorem Used.fenced {past} (h : Used past t) (xs : List HostMonitorDescriptor) :
    Fenced past t xs (t.updateTopology xs) := by
  refine updateTopology_ensures (fun e counter hc =>
    ⟨nofun,nofun,fun heq => ⟨?_,nofun⟩,fun _ _ => rfl⟩)
    (fun _ => ⟨fun u hu hch => ?_,fun u hu _ => ⟨rfl,?_⟩,fun _ => ⟨rfl,fun u hu => ?_⟩,nofun⟩)
    fun hne catalog _ _ _ _ hds => ⟨fun u hu _ => ?_,fun u hu hch => ?_,fun heq =>
      absurd heq hne,nofun⟩
  · rw [hc.resolve_left (not_not.mpr heq)]
  · cases hu
    cases hch
  · cases hu
    rfl
  · cases hu
    rfl
  · cases hu
    refine ⟨Nat.lt_succ_self _,Nat.lt_succ_self _,rfl,fun d hd e he u' hu' d' hd' heq => ?_⟩
    exact absurd (heq ▸ h.past e he u' hu' d' hd') (not_lt.mpr (hds d hd).1)
  · cases hu
    cases hch

/-- Each topology fences the earlier ones, in every run. -/
theorem topology_fenced (limits : PixelLimits) (inputs : List (List HostMonitorDescriptor))
    (xs : List HostMonitorDescriptor) :
    let t := Transition.final step (new limits) inputs
    Fenced (Transition.trace step (new limits) inputs) t xs (t.updateTopology xs) ∧
    ∀ x y geometry d, t.mapCoordinate x y geometry = .ok d ↔ geometry = t.geometryGeneration ∧
      d ∈ t.activeCatalog.displays ∧ d.containsPixel x y = true ∧
      ∀ d' ∈ t.activeCatalog.displays, d'.containsPixel x y = true → d' = d := by
  refine ⟨(used_run limits inputs).fenced xs,fun x y geometry d => ?_⟩
  rw [mapCoordinate,← Catalog.mapPixelCoordinate_eq_ok]
  split <;> simp_all

end DisplayCatalogTracker
end FrankenRemote.Displays
