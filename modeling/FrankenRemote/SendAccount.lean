import FrankenRemote.SendRun

/-! Charges of a sender's cache. -/
namespace FrankenRemote.Delivery

open Wire Bytes Procedure SlotTable

/-- The counters are the retained pictures' charges, within the policy. -/
structure Accounted (c : SendCache) : Prop where
  bytes : c.usedBytes = total (·.charged) c.pictures
  pictures : c.usedPictures = total (fun _ => 1) c.pictures
  bytes_le : c.usedBytes ≤ c.policy.maxCachedBytes
  pictures_le : c.usedPictures ≤ c.policy.maxCachedPictures

namespace Accounted

variable {c s t : SendCache} {now : ℕ}

theorem of_empty (hp : t.pictures = vacant) (hb : t.usedBytes = 0)
    (hc : t.usedPictures = 0) : Accounted t := by
  constructor <;> simp [hp,hb,hc]

theorem put {i} {p q : CachedPicture} (h : Accounted c) (hp : c.pictures i = some p)
    (hch : q.charged = p.charged) : Accounted (c.put i q) := by
  have hb := total_store_same CachedPicture.charged hp hch
  have hc := total_store_same (b := q) (fun _ => 1) hp rfl
  constructor
  · simp only [SendCache.put,hb,h.bytes]
  · simp only [SendCache.put,hc,h.pictures]
  · exact h.bytes_le
  · exact h.pictures_le

theorem expire (h : Accounted c) (now : ℕ) : Accounted (c.expire now) := by
  have hb := total_discard (·.charged) c.pictures (·.sendBy ≤ now)
  have hc := total_discard (fun _ => 1) c.pictures (·.sendBy ≤ now)
  constructor
  · simp only [SendCache.expire,hb,h.bytes]
  · simp only [SendCache.expire,hc,h.pictures,List.map_const',List.sum_replicate,
      smul_eq_mul,mul_one]
  · exact (Nat.sub_le _ _).trans h.bytes_le
  · exact (Nat.sub_le _ _).trans h.pictures_le

theorem inserted {i p} (h : Accounted s) (ha : SendCache.Admissible s p i) :
    Accounted (s.inserted i p (s.usedBytes + p.charged)) := by
  constructor
  · simp only [SendCache.inserted,total_store_vacant _ ha.vacant,h.bytes]
  · simp only [SendCache.inserted,total_store_vacant _ ha.vacant,h.pictures]
  · exact ha.bytes_le
  · exact ha.pictures_lt

theorem lapses (h : Accounted c) (hl : Lapses now c t) : Accounted t := by
  refine hl.invariant (fun s t hlapse hs => ?_) h
  cases hlapse with
  | sampled _ => exact {hs with}
  | closed | failed => exact of_empty rfl rfl rfl
  | expired _ _ _ => exact hs.expire now

theorem charged (h : Accounted c) (hc : SendCache.Charged now c t) : Accounted t := by
  cases hc with
  | before _ => exact h
  | now _ _ _ _ => exact {h with}

theorem effect {e : SendEvent} (h : Accounted e.before) (he : SendEffect e now t) :
    Accounted t := by
  cases he with
  | lapsed hl _ => exact h.lapses hl
  | inserted hl _ ha _ _ _ _ _ ht =>
    subst ht
    exact (h.lapses hl).inserted ha
  | original hl _ hpd hs _ ht =>
    subst ht
    refine (h.lapses hl).put (SendCache.pending_some hpd).1 ?_
    cases SendCache.original_result hs <;> rfl
  | observation hl _ _ ht | observed hl _ _ ht =>
    subst ht
    exact {h.lapses hl with}
  | @repaired s i p job _ _ _ hl _ hc _ _ _ ht =>
    subst ht
    have hput := (h.lapses hl).put (q := {p with repair := job.advance}) hc.cached rfl
    exact {hput with}
  | queued hl _ _ hp _ _ ht =>
    subst ht
    exact (h.lapses hl).put hp rfl
  | awaited hl _ _ _ _ hch _ ht =>
    subst ht
    exact {(h.lapses hl).charged hch with}
  | demanded _ _ _ _ _ _ ht | renewed _ _ _ _ _ _ _ ht | overran _ _ _ ht =>
    subst ht
    exact of_empty rfl rfl rfl

end Accounted
end FrankenRemote.Delivery
