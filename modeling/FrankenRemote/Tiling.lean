import Mathlib.Tactic
import Mathlib.Algebra.BigOperators.Intervals

/-! A finite range cut into blocks of one stride, the last one short, and a buffer that
is filled block by block while a table of word-sized bit masks remembers which. -/
namespace FrankenRemote.Tiling

open List Nat

/-! Blocks. -/

def blockLength (total stride index : ℕ) : ℕ := min stride (total - index*stride)

/-- Blocks of a prefix cover exactly that prefix. -/
theorem sum_blockLength (total stride n : ℕ) :
    ∑ i ∈ Finset.range n, blockLength total stride i = min total (n*stride) := by
  induction n with
  | zero => simp
  | succ n ih =>
    have hmul : (n+1)*stride = n*stride + stride := by ring
    rw [Finset.sum_range_succ,ih,blockLength,hmul]
    omega

variable {total stride : ℕ}

/-- A position lies in exactly the block named by its quotient. -/
theorem mem_block_iff {p} (i : ℕ) (hs : 0 < stride) (hp : p < total) :
    (i*stride ≤ p ∧ p < i*stride + blockLength total stride i) ↔ p/stride = i := by
  rw [Nat.div_eq_iff hs,blockLength]
  omega

/-- Which blocks a finite range has. -/
def blocks (total stride : ℕ) : Finset ℕ := Finset.range ((total + stride - 1)/stride)

variable {i : ℕ}

theorem mem_blocks (hs : 0 < stride) : i ∈ blocks total stride ↔ i*stride < total := by
  rw [blocks,Finset.mem_range,← add_one_le_iff,le_div_iff_mul_le hs,add_mul,one_mul]
  omega

theorem div_mem_blocks {p} (hs : 0 < stride) (hp : p < total) : p/stride ∈ blocks total stride :=
  (mem_blocks hs).mpr ((div_mul_le_self p stride).trans_lt hp)

theorem blockLength_pos (hs : 0 < stride)
    (hi : i ∈ blocks total stride) : 0 < blockLength total stride i := by
  have := (mem_blocks hs).mp hi
  rw [blockLength]
  omega

theorem sum_blocks (hs : 0 < stride) :
    ∑ i ∈ blocks total stride, blockLength total stride i = total := by
  rw [blocks,sum_blockLength,min_eq_left]
  have h := div_add_mod (total + stride - 1) stride
  have hm := mod_lt (total + stride - 1) hs
  rw [mul_comm] at h
  omega

/-- A set of blocks covers the whole range exactly when it is all of them. -/
theorem sum_eq_total_iff (hs : 0 < stride) {S} (hS : S ⊆ blocks total stride) :
    ∑ i ∈ S, blockLength total stride i = total ↔ S = blocks total stride := by
  constructor
  · intro h
    by_contra hne
    obtain ⟨i,hi,hnot⟩ := Finset.exists_of_ssubset (Finset.ssubset_iff_subset_ne.mpr ⟨hS,hne⟩)
    have hlt := Finset.sum_lt_sum_of_subset hS hi hnot (blockLength_pos hs hi)
      (fun j _ _ => zero_le _)
    rw [h,sum_blocks hs] at hlt
    exact lt_irrefl _ hlt
  · rintro rfl
    exact sum_blocks hs

/-! Buffers filled block by block. -/

section Buffer

variable {α : Type}

def slice (xs : List α) (start length : ℕ) : List α := (xs.drop start).take length

/-- Overwrite part of a buffer. -/
def splice (xs : List α) (start : ℕ) (ys : List α) : List α :=
  xs.take start ++ ys ++ xs.drop (start + ys.length)

theorem length_slice {xs : List α} {start length} (h : start + length ≤ xs.length) :
    (slice xs start length).length = length := by
  simp only [slice,length_take,length_drop]
  omega

theorem getElem?_slice (xs : List α) (start length p : ℕ) :
    (slice xs start length)[p]? = if p < length then xs[start+p]? else none := by
  rw [slice,List.getElem?_take]
  simp only [List.getElem?_drop]

theorem getElem?_splice {xs ys : List α} {start} (h : start + ys.length ≤ xs.length) (p : ℕ) :
    (splice xs start ys)[p]? = if start ≤ p ∧ p < start + ys.length then
      ys[p-start]? else xs[p]? := by
  have hlen : (xs.take start).length = start := by
    rw [length_take]
    omega
  rw [splice,append_assoc]
  rcases lt_or_ge p start with hp | hp
  · rw [List.getElem?_append_left (by omega),List.getElem?_take,if_pos hp,if_neg (by omega)]
  rw [List.getElem?_append_right (by omega),hlen]
  rcases lt_or_ge p (start + ys.length) with hq | hq
  · rw [List.getElem?_append_left (by omega),if_pos ⟨hp,hq⟩]
  · rw [List.getElem?_append_right (by omega),List.getElem?_drop,if_neg (by omega)]
    congr 1
    omega

/-- The buffer that holds a source's blocks of `S` and `z` elsewhere. -/
def painted (stride : ℕ) (source : List α) (z : α) (S : Finset ℕ) : List α :=
  source.mapIdx fun p x => if p/stride ∈ S then x else z

variable {stride : ℕ} {source : List α} {z : α} {S : Finset ℕ}

theorem length_painted : (painted stride source z S).length = source.length := by
  simp [painted]

theorem getElem?_painted (p : ℕ) :
    (painted stride source z S)[p]? = source[p]?.map fun x => if p/stride ∈ S then x else z := by
  simp [painted]

theorem painted_empty : painted stride source z ∅ = List.replicate source.length z := by
  apply ext_getElem?
  intro p
  rw [getElem?_painted,List.getElem?_replicate]
  rcases lt_or_ge p source.length with hp | hp
  · simp [hp]
  · simp [not_lt.mpr hp]

theorem painted_of_subset (hs : 0 < stride) (h : blocks source.length stride ⊆ S) :
    painted stride source z S = source := by
  apply ext_getElem?
  intro p
  rw [getElem?_painted]
  rcases lt_or_ge p source.length with hp | hp
  · simp [List.getElem?_eq_getElem hp,h (div_mem_blocks hs hp)]
  · simp [List.getElem?_eq_none hp]

theorem painted_full (hs : 0 < stride) : painted stride source z
    (blocks source.length stride) = source :=
  painted_of_subset hs (Finset.Subset.refl _)

/-- The block of a source that a fragment carries. -/
def block (stride : ℕ) (source : List α) (index : ℕ) : List α :=
  slice source (index*stride) (blockLength source.length stride index)

theorem length_block (i : ℕ) (hi : i*stride < source.length) :
    (block stride source i).length = blockLength source.length stride i := by
  apply length_slice
  rw [blockLength]
  omega

/-- Writing one more block paints it. -/
theorem splice_painted (hs : 0 < stride) (hi : i*stride < source.length) :
    splice (painted stride source z S) (i*stride) (block stride source i) =
      painted stride source z (insert i S) := by
  have hlen := length_block i hi
  have hfit : i*stride + blockLength source.length stride i ≤ source.length := by
    rw [blockLength]
    omega
  apply ext_getElem?
  intro p
  rw [getElem?_splice (by rw [hlen,length_painted]; exact hfit),hlen,getElem?_painted,
    getElem?_painted]
  rcases lt_or_ge p source.length with hp | hp
  · have hm := mem_block_iff i hs hp
    by_cases hq : p/stride = i
    · have hin := hm.mpr hq
      rw [if_pos hin,block,getElem?_slice,if_pos (by omega)]
      simp [hq,Nat.add_sub_cancel' hin.1]
    · rw [if_neg (fun h => hq (hm.mp h))]
      simp [hq]
  · rw [if_neg (by omega)]
    simp [List.getElem?_eq_none hp]

/-- A painted block reads back as the source's block. -/
theorem slice_painted (hs : 0 < stride) (hi : i ∈ S) :
    slice (painted stride source z S) (i*stride) (blockLength source.length stride i) =
      block stride source i := by
  apply ext_getElem?
  intro p
  rw [block,getElem?_slice,getElem?_slice]
  split
  · rename_i hp
    rw [getElem?_painted]
    rcases lt_or_ge (i*stride + p) source.length with hq | hq
    · have hdiv := (mem_block_iff i hs hq).mp ⟨by omega,by omega⟩
      simp [List.getElem?_eq_getElem hq,hdiv,hi]
    · simp [List.getElem?_eq_none hq]
  · rfl

end Buffer

/-! Marks: one bit per block, in words of 64 bits. -/

/-- `words[i/64] & (1 << i%64) != 0`. -/
def marked (words : List ℕ) (i : ℕ) : Bool := (words.getD (i/64) 0).testBit (i%64)

/-- `words[i/64] |= 1 << i%64`. -/
def mark (words : List ℕ) (i : ℕ) : List ℕ := words.modify (i/64) (· ||| 2^(i%64))

theorem length_mark (w : List ℕ) (i : ℕ) : (mark w i).length = w.length := by
  simp [mark]

theorem marked_replicate (n i : ℕ) : marked (List.replicate n 0) i = false := by
  rw [marked,getD_eq_getElem?_getD,List.getElem?_replicate]
  split <;> simp

theorem marked_mark {w : List ℕ} {i} (hi : i/64 < w.length) (j : ℕ) :
    marked (mark w i) j = (marked w j || decide (j = i)) := by
  rw [marked,marked,mark,getD_eq_getElem?_getD,getD_eq_getElem?_getD,List.getElem?_modify]
  by_cases hw : i/64 = j/64
  · have hj : j/64 < w.length := hw ▸ hi
    have hbit : decide (i%64 = j%64) = decide (j = i) := by
      congr 1
      apply propext
      omega
    simp [hw,List.getElem?_eq_getElem hj,testBit_or,testBit_two_pow,hbit]
  · have hne : j ≠ i := fun h => hw (by rw [h])
    simp [hw,hne]

end FrankenRemote.Tiling
