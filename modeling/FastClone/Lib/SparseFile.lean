import Mathlib.Data.List.Basic
import Mathlib.Data.Nat.Notation

/-!
# A file that is written at offsets

A write beyond the end leaves a hole that reads as `z`; setting the length cuts the file off or extends it
by a hole.

* `Holds.pwrite`: a write of a stretch of some content leaves every stretch that the file has of it.
* `ftruncate_eq`: a file that has the whole content is that content, once it is set to its length.
-/

namespace SparseFile

variable {α : Type} (z : α)

/-- Write `bs` at `off`. -/
def pwrite (disk : List α) (off : ℕ) (bs : List α) : List α :=
  (disk ++ List.replicate (off - disk.length) z).take off ++ bs ++ disk.drop (off + bs.length)

/-- Set the length. -/
def ftruncate (disk : List α) (len : ℕ) : List α := disk.take len ++ List.replicate (len - disk.length) z

variable {z} {disk bs content : List α} {off lo hi x : ℕ}

theorem ftruncate_length (disk : List α) (len : ℕ) : (ftruncate z disk len).length = len := by
  unfold ftruncate
  rw [List.length_append, List.length_take, List.length_replicate]
  omega

theorem head_length (disk : List α) (off : ℕ) :
    ((disk ++ List.replicate (off - disk.length) z).take off).length = off := by
  rw [List.length_take, List.length_append, List.length_replicate]
  omega

theorem getElem?_pwrite_in (hlo : off ≤ x) (hhi : x < off + bs.length) : (pwrite z disk off bs)[x]? = bs[x - off]? := by
  have hhead := head_length (z := z) disk off
  unfold pwrite
  rw [List.append_assoc, List.getElem?_append_right (by omega), hhead, List.getElem?_append_left (by omega)]

/-- Beside the write the file stays. -/
theorem getElem?_pwrite_out (hx : x < disk.length) (hout : ¬ (off ≤ x ∧ x < off + bs.length)) :
    (pwrite z disk off bs)[x]? = disk[x]? := by
  have hhead := head_length (z := z) disk off
  unfold pwrite
  rw [List.append_assoc]
  by_cases hlt : x < off
  · rw [List.getElem?_append_left (by omega), List.getElem?_take, if_pos hlt, List.getElem?_append_left hx]
  · rw [List.getElem?_append_right (by omega), hhead, List.getElem?_append_right (by omega), List.getElem?_drop]
    congr 1
    omega

/-- From `lo` up to `hi` the file has the content. -/
def Holds (content disk : List α) (lo hi : ℕ) : Prop := ∀ x, lo ≤ x → x < hi → disk[x]? = content[x]?

/-- Writing a stretch of the content puts it there. -/
theorem Holds.written (hbs : bs = (content.drop off).take bs.length) :
    Holds content (pwrite z disk off bs) off (off + bs.length) := by
  intro x hlo hhi
  rw [getElem?_pwrite_in hlo hhi, hbs, List.getElem?_take, if_pos (by omega), List.getElem?_drop]
  congr 1
  omega

/-- And leaves what was there of it. -/
theorem Holds.pwrite (h : Holds content disk lo hi) (hhi : hi ≤ content.length)
    (hbs : bs = (content.drop off).take bs.length) : Holds content (pwrite z disk off bs) lo hi := by
  intro x hx hlt
  by_cases hin : off ≤ x ∧ x < off + bs.length
  · exact Holds.written hbs x hin.1 hin.2
  · have hget := h x hx hlt
    have hpresent : x < disk.length := by
      by_contra hge
      rw [List.getElem?_eq_none (by omega), List.getElem?_eq_getElem (by omega)] at hget
      cases hget
    rw [getElem?_pwrite_out hpresent hin]
    exact hget

/-- A file that begins with the content and is set to its length is the content. -/
theorem ftruncate_eq (h : Holds content disk 0 content.length) : ftruncate z disk content.length = content := by
  have hlen : content.length ≤ disk.length := by
    by_contra hshort
    have hget := h disk.length (Nat.zero_le _) (by omega)
    rw [List.getElem?_eq_none (Nat.le_refl _), List.getElem?_eq_getElem (by omega)] at hget
    cases hget
  unfold ftruncate
  rw [Nat.sub_eq_zero_of_le hlen, List.replicate_zero, List.append_nil]
  apply List.ext_getElem?
  intro x
  rw [List.getElem?_take]
  by_cases hx : x < content.length
  · rw [if_pos hx]
    exact h x (Nat.zero_le _) hx
  · rw [if_neg hx, List.getElem?_eq_none (by omega)]

end SparseFile
