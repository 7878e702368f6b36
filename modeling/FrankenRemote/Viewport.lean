import FrankenRemote.Bytes
import FrankenRemote.Input
import Mathlib.Tactic.NormNum

/-! The client's transform from window points to desktop pixels. Rendering and input use one
placement, which a viewport keeps only inside the granted display. -/
namespace FrankenRemote.Client

open Bytes Input Nat

/-- In 1/256 of a window pixel. -/
structure LocalPoint where
  x : Int64
  y : Int64

inductive ViewportError
  | invalidArea | outsideGrantedDisplay | outsideImage | unconfirmed | obsolete | overflow | stopped

/-- The number is the allocation that the clones of a layout share. -/
structure Layout where
  identity : ℕ
  source : InputBounds
  destination : InputBounds

def covers (outer inner : InputBounds) : Bool :=
  let x := inner.origin.x.toInt - outer.origin.x.toInt
  let y := inner.origin.y.toInt - outer.origin.y.toInt
  0 ≤ x && 0 ≤ y && x + inner.width ≤ outer.width && y + inner.height ≤ outer.height

structure Viewport where
  bounds : InputBounds
  layout : Option Layout
  confirmed : Bool
  stopped : Bool
  inside : ∀ l, layout = some l → covers bounds l.source = true

/-- `i32::try_from`. -/
def toI32 (z : ℤ) : Except ViewportError Int32 :=
  if -2^31 ≤ z ∧ z < 2^31 then .ok (Int32.ofInt z) else .error .overflow

/-- The largest size of the source's aspect in an area. -/
def fit (sw sh aw ah : ℕ) : ℕ × ℕ := if aw*sh ≤ ah*sw then (aw,aw*sh/sw) else (ah*sw/sh,ah)

def Viewport.place (source area : InputBounds) : Except ViewportError InputBounds := do
  let size := fit source.width source.height area.width area.height
  if size.1 = 0 ∨ size.2 = 0 then .error .invalidArea
  else
    let x ← toI32 (area.origin.x.toInt + ((area.width - size.1)/2 : ℕ))
    let y ← toI32 (area.origin.y.toInt + ((area.height - size.2)/2 : ℕ))
    if 2^32 ≤ size.1 ∨ 2^32 ≤ size.2 then .error .overflow
    else (InputBounds.new ⟨x,y⟩ size.1 size.2).elim (.error .invalidArea) .ok

namespace Viewport

def invalidate (v : Viewport) : Viewport :=
  {v with layout := none, confirmed := false, inside := nofun}

/-- Every attempt of a viewport that is not stopped retires the previous layout. -/
def configure (v : Viewport) (identity : ℕ) (source area : InputBounds) :
    Except ViewportError Layout × Viewport :=
  if v.stopped then (.error .stopped,v)
  else if h : covers v.bounds source = true then
    match place source area with
    | .error e => (.error e,v.invalidate)
    | .ok destination =>
      (.ok ⟨identity,source,destination⟩,{v with
        layout := some ⟨identity,source,destination⟩
        confirmed := false
        inside := fun _ hl => by cases hl; exact h})
  else (.error .outsideGrantedDisplay,v.invalidate)

def stop (v : Viewport) : Viewport := {v.invalidate with stopped := true}

def current (v : Viewport) (layout : Layout) : Except ViewportError Unit :=
  if v.stopped then .error .stopped
  else if v.layout.any (·.identity = layout.identity) then .ok ()
  else .error .obsolete

def confirmLayout (v : Viewport) (layout : Layout) : Except ViewportError Unit × Viewport :=
  match v.current layout with
  | .error e => (.error e,v)
  | .ok _ => (.ok (),{v with confirmed := true})

def checkLayout (v : Viewport) (layout : Layout) : Except ViewportError Unit := do
  v.current layout
  if v.confirmed then .ok () else .error .unconfirmed

end Viewport

/-- Half-open hit testing on one axis. -/
def Within (at_ : Int64) (edge : Int32) (extent : ℕ) : Prop :=
  0 ≤ at_.toInt - edge.toInt*256 ∧ at_.toInt - edge.toInt*256 < extent*256

/-- The source coordinate under a point of the destination. -/
def scaled (at_ : Int64) (edge : Int32) (extent : ℕ) (origin : Int32) (size : ℕ) : ℤ :=
  origin.toInt + (at_.toInt - edge.toInt*256)*size/(extent*256)

def Layout.Hit (l : Layout) (p : LocalPoint) : Prop :=
  Within p.x l.destination.origin.x l.destination.width ∧
    Within p.y l.destination.origin.y l.destination.height

instance (l : Layout) (p : LocalPoint) : Decidable (l.Hit p) :=
  inferInstanceAs (Decidable ((_ ∧ _) ∧ _ ∧ _))

def Viewport.map (v : Viewport) (l : Layout) (p : LocalPoint) :
    Except ViewportError DesktopPoint := do
  v.checkLayout l
  if l.Hit p then
    let x ← toI32 (scaled p.x l.destination.origin.x l.destination.width l.source.origin.x
      l.source.width)
    let y ← toI32 (scaled p.y l.destination.origin.y l.destination.height l.source.origin.y
      l.source.height)
    if v.bounds.contains ⟨x,y⟩ then .ok ⟨x,y⟩ else .error .outsideGrantedDisplay
  else .error .outsideImage

/-! The two roundings. -/

theorem toI32_eq_ok {z i} : toI32 z = .ok i ↔ i.toInt = z := by
  unfold toI32
  constructor
  · intro h
    split at h
    · next hz =>
      cases h
      exact Int32.toInt_ofInt_of_le hz.1 hz.2
    · cases h
  · rintro rfl
    rw [if_pos ⟨i.le_toInt,i.toInt_lt⟩,Int32.ofInt_toInt]

theorem covers_eq_true {a b} : covers a b = true ↔
    (a.origin.x.toInt ≤ b.origin.x.toInt ∧ b.origin.x.toInt + b.width ≤
      a.origin.x.toInt + a.width) ∧ a.origin.y.toInt ≤ b.origin.y.toInt ∧
      b.origin.y.toInt + b.height ≤ a.origin.y.toInt + a.height := by
  simp only [covers,Bool.and_eq_true,decide_eq_true_eq]
  omega

theorem contains_eq_true {b : InputBounds} {p} : b.contains p = true ↔
    (b.origin.x.toInt ≤ p.x.toInt ∧ p.x.toInt < b.origin.x.toInt + b.width) ∧
      b.origin.y.toInt ≤ p.y.toInt ∧ p.y.toInt < b.origin.y.toInt + b.height := by
  simp only [InputBounds.contains,Bool.and_eq_true,decide_eq_true_eq]
  omega

/-- The size fits, fills one axis and is off the aspect by less than one pixel. -/
theorem fit_spec {sw sh aw ah w h} (hw : 0 < sw) (hh : 0 < sh) (hf : fit sw sh aw ah = (w,h)) :
    w ≤ aw ∧ h ≤ ah ∧ (w = aw ∨ h = ah) ∧ w*sh < h*sw + max sw sh ∧ h*sw < w*sh + max sw sh := by
  unfold fit at hf
  split at hf <;> cases hf
  · have hl := div_mul_le_self (aw*sh) sw
    have hu := lt_div_mul_add (a := aw*sh) hw
    exact ⟨le_rfl,Nat.div_le_of_le_mul (by rwa [mul_comm sw]),.inl rfl,by omega,by omega⟩
  · next hlt =>
    have hl := div_mul_le_self (ah*sw) sh
    have hu := lt_div_mul_add (a := ah*sw) hh
    exact ⟨Nat.div_le_of_le_mul (by rw [mul_comm sh]; omega),le_rfl,.inr rfl,by omega,by omega⟩

section Axis

variable {a b : Int64} {edge origin i j : Int32} {extent size : ℕ}

/-- A hit is on a pixel of the source. -/
theorem scaled_pixel (hs : 0 < size) (hr : origin.toInt + size - 1 ≤ 2^31 - 1)
    (ha : Within a edge extent) :
    ∃ i : Int32, i.toInt = scaled a edge extent origin size ∧ origin.toInt ≤ i.toInt ∧
      i.toInt < origin.toInt + size := by
  obtain ⟨h0,h1⟩ := ha
  have hl : 0 ≤ (a.toInt - edge.toInt*256)*size/(extent*256) :=
    Int.ediv_nonneg (by positivity) (by positivity)
  have hu : (a.toInt - edge.toInt*256)*size/(extent*256) < size := by
    refine Int.ediv_lt_of_lt_mul (h0.trans_lt h1) ?_
    rw [mul_comm (size : ℤ)]
    exact mul_lt_mul_of_pos_right h1 (by exact_mod_cast hs)
  have hg := origin.le_toInt
  have hi := Int32.toInt_ofInt_of_le (n :=
    scaled a edge extent origin size) (by unfold scaled; omega) (by unfold scaled; omega)
  exact ⟨_,hi,by rw [hi]; unfold scaled; omega,by rw [hi]; unfold scaled; omega⟩

theorem scaled_mono (he : 0 < extent) (h : a ≤ b) (hi : i.toInt = scaled a edge extent origin size)
    (hj : j.toInt = scaled b edge extent origin size) : i ≤ j := by
  rw [Int32.le_iff_toInt_le,hi,hj]
  have ha := Int64.le_iff_toInt_le.mp h
  unfold scaled
  gcongr
  exact Int.ediv_le_ediv (by positivity) (mul_le_mul_of_nonneg_right (by omega) (by positivity))

/-- Every pixel is hit where the source is not finer than the points of the destination. -/
theorem exists_scaled (hle : size ≤ 256*extent) (hr : edge.toInt + extent - 1 ≤ 2^31 - 1)
    (h0 : origin.toInt ≤ i.toInt) (h1 : i.toInt < origin.toInt + size) :
    ∃ a, Within a edge extent ∧ i.toInt = scaled a edge extent origin size := by
  obtain ⟨k,hk⟩ := Int.eq_ofNat_of_zero_le (sub_nonneg.mpr h0)
  have hks : k < size := by omega
  -- `o` is the least offset on the pixel
  obtain ⟨o,hl,hu⟩ : ∃ o, k*(extent*256) ≤ o*size ∧ o*size < (k+1)*(extent*256) := by
    have hl := div_mul_le_self (k*(extent*256) + (size-1)) size
    have hu := lt_div_mul_add (a := k*(extent*256) + (size-1)) (by omega : 0 < size)
    refine ⟨_,?_,hl.trans_lt ?_⟩
    · omega
    · rw [succ_mul]
      omega
  have ho : o < extent*256 := by
    refine Nat.lt_of_mul_lt_mul_right (a := size) (hu.trans_le ?_)
    rw [mul_comm]
    exact mul_le_mul_left _ hks
  have hq : (o*size : ℤ)/(extent*256) = k := by exact_mod_cast Nat.div_eq_of_lt_le hl hu
  have hoff : (Int64.ofInt (edge.toInt*256 + o)).toInt - edge.toInt*256 = o := by
    have hedge := edge.le_toInt
    rw [Int64.toInt_ofInt_of_le (by omega) (by omega)]
    omega
  refine ⟨Int64.ofInt (edge.toInt*256 + o),?_,?_⟩
  · rw [Within,hoff]
    omega
  · rw [scaled,hoff,hq]
    omega

end Axis

theorem Viewport.map_eq_ok {v : Viewport} {l p q}
    (hl : v.layout = some l) (hc : v.checkLayout l = .ok ()) : v.map l p = .ok q ↔ l.Hit p ∧
      q.x.toInt = scaled p.x l.destination.origin.x l.destination.width l.source.origin.x
        l.source.width ∧
      q.y.toInt = scaled p.y l.destination.origin.y l.destination.height l.source.origin.y
        l.source.height := by
  constructor
  · intro h
    obtain ⟨_,-,h⟩ := bind_eq_ok.mp h
    split at h
    · next hit =>
      obtain ⟨x,hx,h⟩ := bind_eq_ok.mp h
      obtain ⟨y,hy,h⟩ := bind_eq_ok.mp h
      split at h <;> cases h
      exact ⟨hit,toI32_eq_ok.mp hx,toI32_eq_ok.mp hy⟩
    · cases h
  · rintro ⟨hit,hx,hy⟩
    refine bind_eq_ok.mpr ⟨(),hc,?_⟩
    rw [if_pos hit]
    refine bind_eq_ok.mpr ⟨q.x,toI32_eq_ok.mpr hx,bind_eq_ok.mpr ⟨q.y,toI32_eq_ok.mpr hy,if_pos ?_⟩⟩
    obtain ⟨i,hi,hix⟩ := scaled_pixel l.source.width_pos l.source.right_le hit.1
    obtain ⟨j,hj,hjy⟩ := scaled_pixel l.source.height_pos l.source.bottom_le hit.2
    have hin := covers_eq_true.mp (v.inside l hl)
    rw [contains_eq_true]
    dsimp only
    omega

/-- A configured layout. -/
structure Fitted (source area d : InputBounds) : Prop where
  inside : covers area d = true
  centred_x : let left := d.origin.x.toInt - area.origin.x.toInt
    left ≤ area.width - d.width - left ∧ area.width - d.width - left ≤ left + 1
  centred_y : let top := d.origin.y.toInt - area.origin.y.toInt
    top ≤ area.height - d.height - top ∧ area.height - d.height - top ≤ top + 1
  fills : d.width = area.width ∨ d.height = area.height
  aspect : d.width*source.height < d.height*source.width + max source.width source.height ∧
    d.height*source.width < d.width*source.height + max source.width source.height

theorem place_fitted {s area d} (h : Viewport.place s area = .ok d) : Fitted s area d := by
  unfold Viewport.place at h
  rcases hf : fit s.width s.height area.width area.height with ⟨w,ht⟩
  simp only [hf] at h
  split at h
  · cases h
  obtain ⟨x,hx,h⟩ := bind_eq_ok.mp h
  obtain ⟨y,hy,h⟩ := bind_eq_ok.mp h
  split at h
  · cases h
  cases hn : InputBounds.new ⟨x,y⟩ w ht with
  | none => simp [hn] at h
  | some d' =>
    rw [hn] at h
    cases h
    unfold InputBounds.new at hn
    split at hn <;> cases hn
    obtain ⟨hw,hh,hfil,haspect⟩ := fit_spec s.width_pos s.height_pos hf
    rw [toI32_eq_ok] at hx hy
    refine ⟨covers_eq_true.mpr ?_,?_,?_,hfil,haspect⟩ <;> dsimp only <;> omega

/-- Viewport mapping is exact. -/
theorem viewport_exact (v : Viewport) :
    (∀ identity source area l, (v.configure identity source area).1 = .ok l →
      l.source = source ∧ Fitted source area l.destination) ∧
    ∀ l, v.layout = some l → v.checkLayout l = .ok () →
      (∀ p, ¬l.Hit p → v.map l p = .error .outsideImage) ∧
      (∀ p, l.Hit p → ∃ q, v.map l p = .ok q ∧ l.source.contains q = true) ∧
      (∀ p p' q q', v.map l p = .ok q → v.map l p' = .ok q' →
        (p.x ≤ p'.x → q.x ≤ q'.x) ∧ (p.y ≤ p'.y → q.y ≤ q'.y)) ∧
      (l.source.width ≤ 256*l.destination.width → ∀ q, l.source.contains q = true →
        ∃ p q', v.map l p = .ok q' ∧ q'.x = q.x) ∧
      (l.source.height ≤ 256*l.destination.height → ∀ q, l.source.contains q = true →
        ∃ p q', v.map l p = .ok q' ∧ q'.y = q.y) := by
  refine ⟨fun identity source area l h => ?_,fun l hl hc => ?_⟩
  · unfold Viewport.configure at h
    split at h
    · cases h
    split at h
    · split at h <;> cases h
      next hd => exact ⟨rfl,place_fitted hd⟩
    · cases h
  have hok {p q} := v.map_eq_ok (p := p) (q := q) hl hc
  have hhit (p) (hit : l.Hit p) : ∃ q, v.map l p = .ok q ∧ l.source.contains q = true := by
    obtain ⟨i,hi,hix⟩ := scaled_pixel l.source.width_pos l.source.right_le hit.1
    obtain ⟨j,hj,hjy⟩ := scaled_pixel l.source.height_pos l.source.bottom_le hit.2
    exact ⟨⟨i,j⟩,hok.mpr ⟨hit,hi,hj⟩,contains_eq_true.mpr ⟨hix,hjy⟩⟩
  have hw := l.destination.width_pos
  have hh := l.destination.height_pos
  refine ⟨fun p hit => ?_,hhit,fun p p' q q' h h' => ?_,fun hle q hq => ?_,fun hle q hq => ?_⟩
  · unfold Viewport.map
    rw [hc]
    exact if_neg hit
  · obtain ⟨_,hx,hy⟩ := hok.mp h
    obtain ⟨_,hx',hy'⟩ := hok.mp h'
    exact ⟨fun hle => scaled_mono hw hle hx hx',fun hle => scaled_mono hh hle hy hy'⟩
  · obtain ⟨⟨h0,h1⟩,-⟩ := contains_eq_true.mp hq
    obtain ⟨x,hx,hqx⟩ := exists_scaled hle l.destination.right_le h0 h1
    obtain ⟨y,hy,-⟩ :=
      @exists_scaled _ 0 0 _ 1 (by omega) l.destination.bottom_le le_rfl (by decide)
    obtain ⟨q',hq',-⟩ := hhit ⟨x,y⟩ ⟨hx,hy⟩
    exact ⟨_,q',hq',Int32.toInt_inj.mp ((hok.mp hq').2.1.trans hqx.symm)⟩
  · obtain ⟨-,h0,h1⟩ := contains_eq_true.mp hq
    obtain ⟨y,hy,hqy⟩ := exists_scaled hle l.destination.bottom_le h0 h1
    obtain ⟨x,hx,-⟩ := @exists_scaled _ 0 0 _ 1 (by omega) l.destination.right_le le_rfl (by decide)
    obtain ⟨q',hq',-⟩ := hhit ⟨x,y⟩ ⟨hx,hy⟩
    exact ⟨_,q',hq',Int32.toInt_inj.mp ((hok.mp hq').2.2.trans hqy.symm)⟩

end FrankenRemote.Client
