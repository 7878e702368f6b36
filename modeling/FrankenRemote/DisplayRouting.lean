import FrankenRemote.DisplayCatalog
import FrankenRemote.Procedure

/-! Which channel carries a display, and which display a pointer is on, while catalogs come and
go. -/
namespace FrankenRemote.Displays

open Transition Procedure List

/-! The streams. -/

inductive DisplayStreamState
  | suspended | active

structure DisplayStreamEntry where
  handle : ℕ
  channelId : ℕ
  state : DisplayStreamState
  subscribers : ℕ

def DisplayStreamEntry.lane (e : DisplayStreamEntry) : ℕ × ℕ := (e.handle,e.channelId)

/-- The streams of a `MultiDisplayStreamManager`. -/
abbrev Streams := List DisplayStreamEntry

namespace Streams

def addStream (baseChannel : ℕ) (streams : Streams) (entry : Display × ℕ) : Streams :=
  if streams.any (·.handle = entry.1.handle) then streams
  else streams ++ [⟨entry.1.handle,(baseChannel+entry.2)%2^32,.suspended,0⟩]

def syncCatalog (streams : Streams) (catalog : Catalog) (baseChannel : ℕ) : Streams :=
  catalog.displays.zipIdx.foldl (addStream baseChannel)
    (streams.filter fun e => catalog.displays.any (·.handle = e.handle))

/-- The first entry of a handle, and the streams with that entry changed. -/
def onEntry (handle : ℕ) (f : DisplayStreamEntry → DisplayStreamEntry) :
    Streams → Option (ℕ × Streams)
  | [] => none
  | e::es => if e.handle = handle then some (e.channelId,
    f e::es) else (onEntry handle f es).map (·.map id (e::·))

def subscribe (streams : Streams) (handle : ℕ) : Except DisplayMappingError ℕ × Streams :=
  match onEntry handle
      (fun e => {e with subscribers := min (e.subscribers+1) (2^64-1), state := .active})
      streams with
  | none => (.error .displayNotFound,streams)
  | some (channel,streams) => (.ok channel,streams)

def unsubscribe (streams : Streams) (handle : ℕ) : Except DisplayMappingError Unit × Streams :=
  match onEntry handle (fun e => {e with
      subscribers := e.subscribers-1
      state := if e.subscribers-1 = 0 then .suspended else e.state}) streams with
  | none => (.error .displayNotFound,streams)
  | some (_,streams) => (.ok (),streams)

inductive Input
  | syncCatalog (catalog : Catalog)
  | subscribe (handle : ℕ)
  | unsubscribe (handle : ℕ)

/-- The channel of a subscription. -/
def step (baseChannel : ℕ) (streams : Streams) : Input → Option ℕ × Streams
  | .syncCatalog catalog => (none,streams.syncCatalog catalog baseChannel)
  | .subscribe handle => (streams.subscribe handle).map Except.toOption id
  | .unsubscribe handle => (none,(streams.unsubscribe handle).2)

/-- A display that stays in the catalog keeps its place there. -/
def Keeps (c c' : Catalog) : Prop :=
  ∀ (i j : ℕ) (d d' : Display), c.displays[i]? = some d → c'.displays[j]? = some d' →
    d.handle = d'.handle → i = j

def synced (inputs : List Input) : List Catalog :=
  inputs.filterMap fun i => match i with | .syncCatalog c => some c | _ => none

/-- Every stream is of a display of the catalog, on the channel of its place. -/
structure Placed (baseChannel : ℕ) (c : Catalog) (lanes : List (ℕ × ℕ)) : Prop where
  distinct : lanes.Pairwise (·.1 ≠ ·.1)
  place : ∀ l ∈ lanes, ∃ (i : ℕ) (d : Display), c.displays[i]? = some d ∧
    l = (d.handle,(baseChannel+i)%2^32)

variable {base : ℕ} {c : Catalog} {ss : Streams}

theorem Placed.add (h : Placed base c (ss.map (·.lane))) {entry}
    (he : entry ∈ c.displays.zipIdx) : Placed base c ((addStream base ss entry).map (·.lane)) := by
  unfold addStream
  split
  · exact h
  rename_i hnew
  rw [map_append,map_singleton]
  refine ⟨pairwise_snoc.mpr ⟨h.distinct,fun l hl heq => hnew ?_⟩,forall_mem_snoc.mpr ⟨h.place,?_⟩⟩
  · obtain ⟨e,hm,rfl⟩ := mem_map.mp hl
    exact any_eq_true.mpr ⟨e,hm,decide_eq_true heq⟩
  · exact ⟨entry.2,entry.1,mem_zipIdx_iff_getElem?.mp he,rfl⟩

theorem Placed.sync (h : Placed base c (ss.map (·.lane))) {c'} (hk : Keeps c c') :
    Placed base c' ((ss.syncCatalog c' base).map (·.lane)) := by
  have hfold : ∀ entries, entries ⊆ c'.displays.zipIdx → ∀ s :
    Streams, Placed base c' (s.map (·.lane)) →
      Placed base c' ((entries.foldl (addStream base) s).map (·.lane)) := by
    intro entries hsub s hs
    induction entries generalizing s with
    | nil => exact hs
    | cons entry es ih => exact ih (subset_of_cons_subset hsub) _ (hs.add (hsub (.head _)))
  refine hfold _ (List.Subset.refl _) _ ⟨?_,fun l hl => ?_⟩
  · exact h.distinct.sublist ((filter_sublist).map _)
  obtain ⟨e,he,rfl⟩ := mem_map.mp hl
  obtain ⟨hm,hi⟩ := mem_filter.mp he
  obtain ⟨i,d,hd,hlane⟩ := h.place _ (mem_map_of_mem hm)
  obtain ⟨d',hd',hh⟩ := any_eq_true.mp hi
  obtain ⟨j,hj⟩ := mem_iff_getElem?.mp hd'
  have hsame : d'.handle = d.handle := (of_decide_eq_true hh).trans (congrArg Prod.fst hlane)
  obtain rfl := hk i j d d' hd hj hsame.symm
  exact ⟨i,d',hj,by rw [hlane,hsame]⟩

theorem lanes_onEntry {handle f r} (h : onEntry handle f ss = some r)
    (hf : ∀ e, (f e).lane = e.lane) : r.2.map (·.lane) = ss.map (·.lane) := by
  induction ss generalizing r with
  | nil => cases h
  | cons e es ih =>
    rw [onEntry] at h
    split at h
    · cases h
      simp [hf]
    · obtain ⟨q,hq,rfl⟩ := Option.map_eq_some_iff.mp h
      simp [ih hq]

theorem lanes_subscribe (ss : Streams) (handle : ℕ) :
    (ss.subscribe handle).2.map (·.lane) = ss.map (·.lane) ∧
      (ss.unsubscribe handle).2.map (·.lane) = ss.map (·.lane) := by
  constructor
  · unfold subscribe
    split
    · rfl
    · rename_i h
      exact lanes_onEntry h fun _ => rfl
  · unfold unsubscribe
    split
    · rfl
    · rename_i h
      exact lanes_onEntry h fun _ => rfl

theorem placed_run (inputs : List Input) (h : Placed base c (ss.map (·.lane)))
    (hk : (c::synced inputs).IsChain Keeps) :
    ∃ c', Placed base c' ((final (step base) ss inputs).map (·.lane)) := by
  induction inputs generalizing c ss with
  | nil => exact ⟨c,h⟩
  | cons i is ih =>
    cases i with
    | syncCatalog c' =>
      obtain ⟨hf,hr⟩ := isChain_cons_cons.mp hk
      exact ih (h.sync hf) hr
    | subscribe handle => exact ih ((lanes_subscribe ss handle).1 ▸ h) hk
    | unsubscribe handle => exact ih ((lanes_subscribe ss handle).2 ▸ h) hk

/-- Displays that stay where they are in the catalog have channels of their own. -/
theorem channels_distinct {inputs : List Input} (hbase : base+maxDisplays ≤ 2^32)
    (hkeeps : (synced inputs).IsChain Keeps) :
    (final (step base) [] inputs).Pairwise (·.channelId ≠ ·.channelId) := by
  have hnil : Placed base ⟨1,[],by decide,.nil⟩ (([] : Streams).map (·.lane)) := ⟨.nil,nofun⟩
  obtain ⟨c,h⟩ := placed_run inputs hnil
    (isChain_cons.mpr ⟨fun _ _ _ _ _ _ hd => by simp at hd,hkeeps⟩)
  suffices hc : ((final (step base) [] inputs).map (·.lane)).Pairwise (·.2 ≠ ·.2) by
    simpa only [pairwise_map,DisplayStreamEntry.lane] using hc
  refine h.distinct.imp_of_mem fun {l l'} hl hl' hne heq => hne ?_
  obtain ⟨i,d,hd,rfl⟩ := h.place l hl
  obtain ⟨j,d',hd',rfl⟩ := h.place l' hl'
  have hi : i < maxDisplays := (List.getElem?_eq_some_iff.mp hd).1.trans_le c.count_le
  have hj : j < maxDisplays := (List.getElem?_eq_some_iff.mp hd').1.trans_le c.count_le
  have hij : i = j := by simp only at heq; omega
  subst hij
  rw [hd] at hd'
  cases hd'
  rfl

def sampleDisplay (handle generation : ℕ) : Display := ⟨handle,generation,0,0,1,1,1,1,1,1,0⟩

/-- A display takes the place of one that is gone, the other stays where it is. -/
theorem channels_distinct_pair : ∃ c c' : Catalog,
    (final (step 100) [] [.syncCatalog c,.subscribe 1,.syncCatalog c',.subscribe 3]).map (·.lane) =
      [(2,101),(3,100)] ∧
    (final (step 100) [] [.syncCatalog c,.subscribe 1,.syncCatalog c',.subscribe 3]).Pairwise
      (·.channelId ≠ ·.channelId) := by
  refine ⟨⟨1,[sampleDisplay 1 1,sampleDisplay 2 1],by decide,by decide⟩,
    ⟨2,[sampleDisplay 3 1,sampleDisplay 2 1],by decide,by decide⟩,rfl,
    channels_distinct (by decide) (isChain_pair.mpr fun i j d d' hd hd' hh => ?_)⟩
  rcases i with _ | _ | i <;> rcases j with _ | _ | j <;> simp_all [sampleDisplay] <;> grind

/-- A display that moves up keeps the channel of its old place, which the display that takes the
place gets as well. -/
theorem channels_shared : ∃ c c' : Catalog,
    (trace (step 100) [] [.syncCatalog c,.syncCatalog c',.subscribe 2,.subscribe 3]).map (·.reply) =
      [none,none,some 101,some 101] :=
  ⟨⟨1,[sampleDisplay 1 1,sampleDisplay 2 1],by decide,by decide⟩,
    ⟨2,[sampleDisplay 2 1,sampleDisplay 3 1],by decide,by decide⟩,rfl⟩

end Streams

/-! The pointer. -/

structure ActiveDragState where
  targetDisplay : ℕ
  geometry : ℕ
  currentPos : Input.DesktopPoint

structure ActiveClickState where
  targetDisplay : ℕ
  geometry : ℕ
  scaleNumerator : ℕ
  scaleDenominator : ℕ

structure DisplayTargetController where
  explicitTarget : Option ℕ
  activeDrag : Option ActiveDragState
  activeClick : Option ActiveClickState

namespace DisplayTargetController

def new : DisplayTargetController := ⟨none,none,none⟩

/-- A catalog without displays is of every generation. -/
def stale (catalog : Catalog) (geometry : ℕ) : Bool := catalog.geometryGeneration.any (· ≠ geometry)

def setExplicitTarget (handle : ℕ) (catalog : Catalog) :
    Proc DisplayTargetController DisplayMappingError Unit := do
  refuseIf ((catalog.find handle).isNone = true) .displayNotFound
  modify ({· with explicitTarget := some handle})

def routePointerMove (x y : Int32) (geometry : ℕ) (catalog : Catalog) :
    Proc DisplayTargetController DisplayMappingError (ℕ × Input.DesktopPoint) := do
  let t ← get
  match t.activeDrag with
  | some drag =>
    refuseIf (stale catalog drag.geometry = true) .staleGeometry
    refuseIf (drag.geometry ≠ geometry) .staleGeometry
    let d ← okOr (catalog.find drag.targetDisplay) .displayNotFound
    modify ({· with activeDrag := some {drag with currentPos := ⟨x,y⟩}})
    pure (d.handle,⟨x,y⟩)
  | none =>
    refuseIf (stale catalog geometry = true) .staleGeometry
    let display ← ofResult (catalog.mapPixelCoordinate x y)
    modify ({· with explicitTarget := some display.handle})
    pure (display.handle,⟨x,y⟩)

def onPointerPress (x y : Int32) (geometry : ℕ) (catalog : Catalog) :
    Proc DisplayTargetController DisplayMappingError ℕ := do
  refuseIf (stale catalog geometry = true) .staleGeometry
  let display ← ofResult (catalog.mapPixelCoordinate x y)
  set (⟨some display.handle,some ⟨display.handle,geometry,⟨x,y⟩⟩,
    some ⟨display.handle,geometry,display.scaleNumerator,
      display.scaleDenominator⟩⟩ : DisplayTargetController)
  pure display.handle

/-- Whatever was active is over, also where the release is refused. -/
def onPointerRelease (geometry : ℕ) (catalog : Catalog) :
    Proc DisplayTargetController DisplayMappingError ℕ := do
  let t ← get
  modify ({· with activeClick := none, activeDrag := none})
  match t.activeClick, t.activeDrag with
  | some click, _ =>
    refuseIf (stale catalog click.geometry = true) .staleGeometry
    refuseIf (geometry ≠ click.geometry) .staleGeometry
    let display ← okOr (catalog.find click.targetDisplay) .displayNotFound
    refuseIf (display.scaleNumerator ≠ click.scaleNumerator ∨
      display.scaleDenominator ≠ click.scaleDenominator) .staleGeometry
    pure click.targetDisplay
  | none, some drag =>
    refuseIf (stale catalog drag.geometry = true) .staleGeometry
    refuseIf (geometry ≠ drag.geometry) .staleGeometry
    let display ← okOr (catalog.find drag.targetDisplay) .displayNotFound
    pure display.handle
  | none, none => okOr t.explicitTarget .displayNotFound

inductive Call
  | setExplicitTarget (handle : ℕ) (catalog : Catalog)
  | routePointerMove (x y : Int32) (geometry : ℕ) (catalog : Catalog)
  | onPointerPress (x y : Int32) (geometry : ℕ) (catalog : Catalog)
  | onPointerRelease (geometry : ℕ) (catalog : Catalog)
  | abortInteraction

/-- The display that a call names. -/
def step (t : DisplayTargetController) :
    Call → Except DisplayMappingError (Option ℕ) × DisplayTargetController
  | .setExplicitTarget handle catalog =>
    (exec (setExplicitTarget handle catalog) t).map (·.map fun _ => none) id
  | .routePointerMove x y geometry catalog =>
    (exec (routePointerMove x y geometry catalog) t).map (·.map fun r => some r.1) id
  | .onPointerPress x y geometry catalog =>
    (exec (onPointerPress x y geometry catalog) t).map (·.map some) id
  | .onPointerRelease geometry catalog =>
    (exec (onPointerRelease geometry catalog) t).map (·.map some) id
  | .abortInteraction => (.ok none,{t with activeDrag := none, activeClick := none})

/-- The handle is of a display in the catalog, which is of the generation. -/
def Present (catalog : Catalog) (geometry handle : ℕ) : Prop :=
  (∃ d ∈ catalog.displays, d.handle = handle) ∧ catalog.geometryGeneration = some geometry

section

variable {cat : Catalog} {g : ℕ} {d : Display}

theorem present_of_mem (hd : d ∈ cat.displays) (hs : ¬stale cat g = true) :
    Present cat g d.handle := by
  refine ⟨⟨d,hd,rfl⟩,?_⟩
  cases hc : cat.displays with
  | nil => simp [hc] at hd
  | cons e es => simpa [stale,Catalog.geometryGeneration,hc] using hs

theorem present_of_find {handle} (hd : cat.find handle = some d) (hs : ¬stale cat g = true) :
    Present cat g handle := by
  have hh : d.handle = handle := by simpa using List.find?_some hd
  exact hh ▸ present_of_mem (mem_of_find?_eq_some hd) hs

end

/-- One call, from any state. -/
theorem call_present (t : DisplayTargetController) (cat : Catalog) (g : ℕ) :
    (∀ x y, Ensures (routePointerMove x y g cat) t fun res _ =>
      ∀ handle p, res = .ok (handle,p) → Present cat g handle) ∧
    (∀ x y, Ensures (onPointerPress x y g cat) t fun res _ =>
      ∀ handle, res = .ok handle → Present cat g handle) ∧
    (t.activeClick.isSome ∨ t.activeDrag.isSome → Ensures (onPointerRelease g cat) t fun res _ =>
      ∀ handle, res = .ok handle → Present cat g handle) := by
  refine ⟨fun x y => .get_bind ?_,fun x y => ?_,fun ha => .get_bind (.modify_bind ?_)⟩
  · cases t.activeDrag with
    | some drag =>
      refine .refuseIf_bind (fun _ => nofun) fun hs => .refuseIf_bind (fun _ => nofun) fun hg => ?_
      obtain rfl := not_not.mp hg
      refine .okOr_bind (fun _ => nofun) fun d hd => .modify_bind (.pure fun handle p h => ?_)
      cases h
      exact present_of_mem (mem_of_find?_eq_some hd) hs
    | none =>
      refine .refuseIf_bind (fun _ => nofun) fun hs => .ofResult_bind (fun _ _ => nofun) fun d hd =>
        ?_
      refine .modify_bind (.pure fun handle p h => ?_)
      cases h
      exact present_of_mem (Catalog.mapPixelCoordinate_eq_ok.mp hd).1 hs
  · refine .refuseIf_bind (fun _ => nofun) fun hs => .ofResult_bind (fun _ _ => nofun) fun d hd =>
      ?_
    refine .of_exec rfl fun handle h => ?_
    cases h
    exact present_of_mem (Catalog.mapPixelCoordinate_eq_ok.mp hd).1 hs
  · split
    · refine .refuseIf_bind (fun _ => nofun) fun hs => .refuseIf_bind (fun _ => nofun) fun hg => ?_
      obtain rfl := not_not.mp hg
      refine .okOr_bind (fun _ => nofun) fun d hd => .refuseIf_bind (fun _ => nofun) fun _ => .pure
        fun handle h => ?_
      cases h
      exact present_of_find hd hs
    · refine .refuseIf_bind (fun _ => nofun) fun hs => .refuseIf_bind (fun _ => nofun) fun hg => ?_
      obtain rfl := not_not.mp hg
      refine .okOr_bind (fun _ => nofun) fun d hd => .pure fun handle h => ?_
      cases h
      exact present_of_mem (mem_of_find?_eq_some hd) hs
    · simp_all

theorem of_map_ok {ε α β : Type} {r : Except ε α} {f : α → β} {b} (h : r.map f = .ok b) :
    ∃ a, r = .ok a ∧ f a = b := by
  cases r with
  | error => cases h
  | ok a => exact ⟨a,rfl,Except.ok.inj h⟩

/-- What a call was given to route by. -/
def Call.supplied : Call → Option (Catalog × ℕ)
  | routePointerMove _ _ geometry catalog | onPointerPress _ _ geometry catalog
  | onPointerRelease geometry catalog => some (catalog,geometry)
  | _ => none

/-- Every display that a call of a run names is present, unless a release finds no interaction. -/
theorem routed_present (t : DisplayTargetController) (calls : List Call) :
    ∀ e ∈ trace step t calls, ∀ handle, e.reply = .ok (some handle) →
      ((∃ g cat, e.input = .onPointerRelease g cat) →
        e.before.activeClick.isSome ∨ e.before.activeDrag.isSome) →
      ∃ cat g, e.input.supplied = some (cat,g) ∧ Present cat g handle := by
  refine trace_invariant (I := fun _ => True) step (fun t call _ => ⟨trivial,fun handle h ha => ?_⟩)
    calls trivial
  cases call with
  | setExplicitTarget handle' cat =>
    obtain ⟨_,_,h⟩ := of_map_ok h
    cases h
  | routePointerMove x y g cat =>
    obtain ⟨r,hr,h⟩ := of_map_ok h
    cases h
    exact ⟨_,_,rfl,(call_present t cat g).1 x y _ _ hr⟩
  | onPointerPress x y g cat =>
    obtain ⟨r,hr,h⟩ := of_map_ok h
    cases h
    exact ⟨_,_,rfl,(call_present t cat g).2.1 x y _ hr⟩
  | onPointerRelease g cat =>
    obtain ⟨r,hr,h⟩ := of_map_ok h
    cases h
    exact ⟨_,_,rfl,(call_present t cat g).2.2 (ha ⟨_,_,rfl⟩) _ hr⟩
  | abortInteraction => cases h

/-- A click. -/
theorem routed_present_click : ∃ cat,
    (trace step new [.onPointerPress 0 0 1 cat,.onPointerRelease 1 cat]).map (·.reply) =
      [.ok (some 1),.ok (some 1)] ∧ Present cat 1 1 := by
  let cat : Catalog := ⟨1,[Streams.sampleDisplay 1 1],by decide,by decide⟩
  refine ⟨cat,rfl,?_⟩
  obtain ⟨_,_,hs,hp⟩ := routed_present new [.onPointerPress 0 0 1 cat,.onPointerRelease 1 cat] _
    (.tail _ (.head _)) 1 rfl fun _ => .inl rfl
  cases hs
  exact hp

/-- The explicit target is returned as it was set, whatever has become of its display. -/
theorem release_vanished : ∃ c c' : Catalog,
    (exec (onPointerRelease 2 c') (exec (setExplicitTarget 1 c) new).2).1 = .ok 1 ∧
    c'.find 1 = none :=
  ⟨⟨1,[Streams.sampleDisplay 1 1],by decide,by decide⟩,
    ⟨2,[Streams.sampleDisplay 2 2],by decide,by decide⟩,rfl,rfl⟩

end DisplayTargetController
end FrankenRemote.Displays
