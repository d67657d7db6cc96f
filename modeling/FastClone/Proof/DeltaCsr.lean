import FastClone.Lib.BucketSort
import FastClone.Spec.Delta

/-!
# The candidate layout of the planner

`bucket_eq`: **the slots of a bucket hold exactly the full-length blocks of that
bucket, each once, in descending block index.** The three passes of `buildCsr` are
the counting sort of `FastClone.Lib.BucketSort`.

`buildCsr_laidOut` adds that the ranges of the buckets share out the entries array, and that
the passes with every access checked have a value, the layout of the plain ones.
-/

namespace FastClone.Delta

open BucketSort

variable (sig : SignatureSet)

/-- The full-length blocks, ascending. -/
def fullBlocks : List ℕ :=
  (List.range sig.blockCount).filter fun i => sig.blockLen i = sig.blockSize

/-- The bucket of a block. -/
def bucketOfBlock (i : ℕ) : ℕ := bucketOf (sig.blocks.getD i default).weak

/-- The entry of a block. -/
def entryOf (i : ℕ) : Entry := ⟨(sig.blocks.getD i default).weak, i⟩

theorem u32_of_lt {n : ℕ} (h : n < 2 ^ 32) : u32 n = n := Nat.mod_eq_of_lt h

theorem u32_le (n : ℕ) : u32 n ≤ n := Nat.mod_le _ _

theorem bucketOf_lt (weak32 : UInt32) : bucketOf weak32 < kBuckets := by
  unfold bucketOf kBuckets
  have h : (((weak32 >>> 16) ^^^ (weak32 &&& 0xFFFF)) &&& 0xFFFF).toNat ≤ 0xFFFF := by
    rw [UInt32.toNat_and]
    exact Nat.and_le_right
  omega

theorem mem_fullBlocks {i : ℕ} :
    i ∈ fullBlocks sig ↔ i < sig.blockCount ∧ sig.blockLen i = sig.blockSize := by
  simp [fullBlocks]

theorem fullBlocks_length_lt : (fullBlocks sig).length < 2 ^ 32 := by
  have h1 := List.length_filter_le (fun i => decide (sig.blockLen i = sig.blockSize))
    (List.range sig.blockCount)
  have h2 := sig.blockCount_lt
  simp only [List.length_range] at h1
  unfold fullBlocks
  omega

/-- The counting pass is the histogram over the full blocks, next to their number. -/
theorem countBuckets_eq : countBuckets sig =
    (histogram (bucketOfBlock sig · + 1) u32 (fullBlocks sig) (Array.replicate (kBuckets + 1) 0),
      (fullBlocks sig).length) := by
  -- over any counters to start with; below `2^32` the number of blocks does not wrap
  have key : ∀ (l : List ℕ) (a : Array ℕ) (n : ℕ),
      n + (l.filter fun i => sig.blockLen i = sig.blockSize).length < 2 ^ 32 →
      l.foldl (fun (a : Array ℕ × ℕ) i =>
        if sig.blockLen i ≠ sig.blockSize then a
        else (a.1.modify (bucketOf (sig.blocks.getD i default).weak + 1) (u32 <| · + 1),
          u32 (a.2 + 1))) (a, n) =
      (histogram (bucketOfBlock sig · + 1) u32 (l.filter fun i => sig.blockLen i = sig.blockSize) a,
        n + (l.filter fun i => sig.blockLen i = sig.blockSize).length) := by
    intro l
    induction l with
    | nil => intro a n _; rfl
    | cons i l ih =>
      intro a n hn
      rw [List.foldl_cons]
      by_cases hi : sig.blockLen i = sig.blockSize
      · rw [List.filter_cons_of_pos (by simpa using hi)] at hn ⊢
        rw [List.length_cons] at hn
        rw [if_neg (by simpa using hi), u32_of_lt (n := n + 1) (by omega), ih _ _ (by omega)]
        simp only [histogram, List.foldl_cons, List.length_cons, bucketOfBlock, Prod.mk.injEq, true_and]
        omega
      · rw [List.filter_cons_of_neg (by simpa using hi)] at hn ⊢
        rw [if_pos hi, ih _ _ hn]
  have := key (List.range sig.blockCount) (Array.replicate (kBuckets + 1) 0) 0
    (by rw [Nat.zero_add]; exact fullBlocks_length_lt sig)
  rwa [Nat.zero_add] at this

theorem countBuckets_getD_zero : (countBuckets sig).1.getD 0 0 = 0 := by
  rw [countBuckets_eq, histogram_getD (N := 2 ^ 32) _ (fun n hn => u32_of_lt hn)]
  · simp [load, Array.getD]
  · simp
  · have := fullBlocks_length_lt sig
    simpa [Array.getD] using this

theorem countBuckets_getD_succ {b : ℕ} (hb : b < kBuckets) :
    (countBuckets sig).1.getD (b + 1) 0 = load (bucketOfBlock sig) (fullBlocks sig) b := by
  rw [countBuckets_eq, histogram_getD (N := 2 ^ 32) _ (fun n hn => u32_of_lt hn)]
  · simp [load, Array.getD]
  · simpa using hb
  · have := fullBlocks_length_lt sig
    simpa [Array.getD] using this

theorem prefixSums_getD {b : ℕ} (hb : b ≤ kBuckets) :
    (prefixSums (countBuckets sig).1).getD b 0 = start (bucketOfBlock sig) (fullBlocks sig) b := by
  have hsize : (countBuckets sig).1.size = kBuckets + 1 := by
    rw [countBuckets_eq, histogram_size, Array.size_replicate]
  have := sums_getD (bucketOfBlock sig) (N := 2 ^ 32) (fun n hn => u32_of_lt hn)
    (fullBlocks_length_lt sig) (countBuckets_getD_zero sig)
    (fun b hb => countBuckets_getD_succ sig (by omega)) kBuckets (by omega) b (by omega)
  rwa [if_pos hb] at this

/-- The filling pass places the full blocks one by one, in descending order. -/
theorem fillEntries_eq (bucketStart : Array ℕ) (n : ℕ) : fillEntries sig bucketStart n =
    ((fullBlocks sig).reverse.foldl (place (bucketOfBlock sig) (entryOf sig) u32)
      (Array.replicate n default, bucketStart.take kBuckets)).1 := by
  -- blocks that the loop skips might as well not be in the list
  have key : ∀ (l : List ℕ) (a : Array Entry × Array ℕ),
      l.foldl (fun (a : Array Entry × Array ℕ) i =>
        if sig.blockLen i ≠ sig.blockSize then a
        else
          let weak := (sig.blocks.getD i default).weak
          let b := bucketOf weak
          (a.1.setIfInBounds (a.2.getD b 0) ⟨weak, i⟩, a.2.modify b (u32 <| · + 1))) a =
      (l.filter fun i => sig.blockLen i = sig.blockSize).foldl
        (place (bucketOfBlock sig) (entryOf sig) u32) a := by
    intro l
    induction l with
    | nil => intro a; rfl
    | cons i l ih =>
      intro a
      rw [List.foldl_cons, ih]
      by_cases hi : sig.blockLen i = sig.blockSize
      · rw [List.filter_cons_of_pos (by simpa using hi), if_neg (by simpa using hi)]
        rfl
      · rw [List.filter_cons_of_neg (by simpa using hi), if_pos hi]
  rw [fillEntries, key, fullBlocks, List.filter_reverse]

theorem bucketOfBlock_lt {i : ℕ} (_ : i ∈ fullBlocks sig) : bucketOfBlock sig i < kBuckets :=
  bucketOf_lt _

theorem countBuckets_size : (countBuckets sig).1.size = kBuckets + 1 := by
  rw [countBuckets_eq, histogram_size, Array.size_replicate]

theorem prefixSums_size : (prefixSums (countBuckets sig).1).size = kBuckets + 1 := by
  rw [prefixSums, ← sums, sums_size, countBuckets_size]

/-- The copy `fillPos` of the starts. -/
theorem fillPos_size : (Array.take (prefixSums (countBuckets sig).1) kBuckets).size = kBuckets := by
  rw [Array.take_eq_extract, Array.size_extract, prefixSums_size]
  omega

theorem fillPos_getD {b : ℕ} (hb : b < kBuckets) :
    (Array.take (prefixSums (countBuckets sig).1) kBuckets).getD b 0 =
      start (bucketOfBlock sig) (fullBlocks sig) b := by
  rw [← prefixSums_getD sig (by omega)]
  simp only [Array.getD_eq_getD_getElem?, Array.take_eq_extract, Array.getElem?_extract]
  rw [if_pos (by rw [prefixSums_size]; omega), Nat.zero_add]

theorem entries_size : (Array.replicate (countBuckets sig).2 (default : Entry)).size =
    (fullBlocks sig).length := by
  rw [countBuckets_eq, Array.size_replicate]

/-- The slots of a bucket. -/
def Csr.bucket (csr : Csr) (b : ℕ) : List Entry :=
  (csr.entries.toList.take (csr.bucketStart.getD (b + 1) 0)).drop (csr.bucketStart.getD b 0)

/-- **Bucket layout**: the slots of a bucket are its full blocks, in descending block index. -/
theorem bucket_eq {b : ℕ} (hb : b < kBuckets) : (buildCsr sig).bucket b =
    ((fullBlocks sig).reverse.filter (bucketOfBlock sig · = b)).map (entryOf sig) := by
  simp only [buildCsr, Csr.bucket]
  rw [prefixSums_getD sig (by omega), prefixSums_getD sig (by omega), fillEntries_eq]
  exact fill_bucket (K := kBuckets) (N := 2 ^ 32) (fun n hn => u32_of_lt hn)
    (fullBlocks_length_lt sig) (List.reverse_perm _) (fun _ => bucketOfBlock_lt sig)
    (entries_size sig) (fillPos_size sig) (fun _ hb => fillPos_getD sig hb) b

/-- The candidates of a weak checksum are the full blocks of its bucket. -/
theorem candidates_eq (weak32 : UInt32) : (buildCsr sig).candidates weak32 =
    ((fullBlocks sig).reverse.filter (bucketOfBlock sig · = bucketOf weak32)).map (entryOf sig) :=
  bucket_eq sig (bucketOf_lt weak32)

/-- What a candidate is: a full-length block with its own weak checksum. -/
theorem mem_candidates {weak32 : UInt32} {e : Entry} (h : e ∈ (buildCsr sig).candidates weak32) :
    e.blockIndex < sig.blockCount ∧ sig.blockLen e.blockIndex = sig.blockSize := by
  rw [candidates_eq, List.mem_map] at h
  obtain ⟨i, hi, rfl⟩ := h
  exact (mem_fullBlocks sig).1 (List.mem_reverse.1 (List.mem_filter.1 hi).1)

/-! ### The passes with their accesses checked -/

theorem modifyChecked_of_lt {a : Array ℕ} {i : ℕ} (h : i < a.size) (f : ℕ → ℕ) :
    modifyChecked a i f = some (a.modify i f) := if_pos h

section Checked

variable {sig} (hblocks : sig.blocks.size = sig.blockCount)

include hblocks

theorem getElem?_block {i : ℕ} (hi : i < sig.blockCount) :
    sig.blocks[i]? = some (sig.blocks.getD i default) := by
  rw [← hblocks] at hi
  rw [Array.getElem?_eq_getElem hi, Array.getElem_eq_getD default]

theorem countBucketsChecked_eq : countBucketsChecked sig = some (countBuckets sig) := by
  apply foldlM_eq_some (fun _ a => a.1.size = kBuckets + 1)
  · intro done i rest a hl ha
    by_cases hi : sig.blockLen i ≠ sig.blockSize
    · rw [if_pos hi, if_pos hi]
      exact ⟨rfl, ha⟩
    · -- the block is one of the list, and its bucket one of `kBuckets`
      have hmem : i ∈ List.range sig.blockCount := by rw [← hl]; simp
      have hget := getElem?_block hblocks (List.mem_range.1 hmem)
      have hb := bucketOf_lt (sig.blocks.getD i default).weak
      rw [if_neg hi, if_neg hi, hget]
      simp only [Option.bind_eq_bind, Option.bind_some]
      rw [modifyChecked_of_lt (by omega)]
      refine ⟨rfl, ?_⟩
      rw [Array.size_modify, ha]
  · rw [Array.size_replicate]

omit hblocks in
theorem prefixSumsChecked_eq :
    prefixSumsChecked (countBuckets sig).1 = some (prefixSums (countBuckets sig).1) := by
  rw [prefixSumsChecked, prefixSums]
  apply foldlM_eq_some (fun _ a => a.size = kBuckets + 1)
  · intro done b rest a hl ha
    have hmem : b ∈ List.range kBuckets := by rw [← hl]; simp
    have hb : b < a.size := by
      have := List.mem_range.1 hmem
      omega
    have hget : a[b]? = some (a.getD b 0) := by
      rw [Array.getElem?_eq_getElem hb, Array.getElem_eq_getD 0]
    rw [hget]
    simp only [Option.bind_eq_bind, Option.bind_some]
    have := List.mem_range.1 hmem
    rw [modifyChecked_of_lt (by omega)]
    refine ⟨rfl, ?_⟩
    rw [Array.size_modify, ha]
  · exact countBuckets_size sig

/-- A step of the checked filling pass places a full block and skips any other. -/
theorem fillStepChecked_eq {i : ℕ} (hi : i < sig.blockCount) (a : Array Entry × Array ℕ) :
    fillStepChecked sig a i = if sig.blockLen i = sig.blockSize then
      placeChecked (bucketOfBlock sig) (entryOf sig) u32 a i else some a := by
  unfold fillStepChecked
  by_cases hfull : sig.blockLen i = sig.blockSize
  · rw [if_neg (by simpa using hfull), if_pos hfull, getElem?_block hblocks hi]
    simp only [Option.bind_eq_bind, Option.bind_some, placeChecked, place, bucketOfBlock, entryOf]
    -- a counter that can be read can be written
    by_cases hb : bucketOf (sig.blocks.getD i default).weak < a.2.size
    · rw [modifyChecked_of_lt hb, Array.getElem?_eq_getElem hb, Array.getElem_eq_getD 0]
      rfl
    · rw [Array.getElem?_eq_none (by omega)]
      rfl
  · rw [if_pos hfull, if_neg hfull]

theorem fillEntriesChecked_eq : fillEntriesChecked sig (prefixSums (countBuckets sig).1)
    (countBuckets sig).2 = some (fillEntries sig (prefixSums (countBuckets sig).1)
      (countBuckets sig).2) := by
  have hpass : ∀ a, (List.range sig.blockCount).reverse.foldlM (fillStepChecked sig) a =
      (fullBlocks sig).reverse.foldlM (placeChecked (bucketOfBlock sig) (entryOf sig) u32) a := by
    intro a
    rw [fullBlocks, ← List.filter_reverse, List.foldlM_filter]
    apply foldlM_congr
    intro i hi a
    rw [fillStepChecked_eq hblocks (List.mem_range.1 (List.mem_reverse.1 hi))]
    simp
  have hfill := @fill_checked _ _ (bucketOfBlock sig) (entryOf sig) u32 (fullBlocks sig) kBuckets (2 ^ 32) _ _ _
    (fun n hn => u32_of_lt hn) (fullBlocks_length_lt sig) (List.reverse_perm _)
    (fun _ => bucketOfBlock_lt sig) (entries_size sig) (fillPos_size sig)
    (fun _ hb => fillPos_getD sig hb)
  rw [fillEntries_eq, fillEntriesChecked, hpass, hfill]
  rfl

theorem buildCsrChecked_eq : buildCsrChecked sig = some (buildCsr sig) := by
  rw [buildCsrChecked, countBucketsChecked_eq hblocks]
  simp only [Option.bind_eq_bind, Option.bind_some]
  rw [prefixSumsChecked_eq, Option.bind_some, fillEntriesChecked_eq hblocks]
  rfl

end Checked

/-! ### The layout -/

/-- A layout of the full-length blocks: what each bucket holds, and how the ranges of the
buckets share out the entries. -/
structure Csr.LaidOut (csr : Csr) : Prop where
  mem : ∀ b < kBuckets, ∀ e, e ∈ csr.bucket b ↔ ∃ i < sig.blockCount,
    sig.blockLen i = sig.blockSize ∧ bucketOfBlock sig i = b ∧ e = entryOf sig i
  descending : ∀ b < kBuckets, ((csr.bucket b).map Entry.blockIndex).Pairwise (· > ·)
  ordered : ∀ b < kBuckets, csr.bucketStart.getD b 0 ≤ csr.bucketStart.getD (b + 1) 0
  inside : ∀ b < kBuckets, csr.bucketStart.getD (b + 1) 0 ≤ csr.entries.size
  owner : ∀ k < csr.entries.size, ∃! b, b < kBuckets ∧
    csr.bucketStart.getD b 0 ≤ k ∧ k < csr.bucketStart.getD (b + 1) 0

theorem mem_bucket {b : ℕ} (hb : b < kBuckets) (e : Entry) : e ∈ (buildCsr sig).bucket b ↔
    ∃ i < sig.blockCount, sig.blockLen i = sig.blockSize ∧ bucketOfBlock sig i = b ∧
      e = entryOf sig i := by
  rw [bucket_eq sig hb, List.mem_map]
  simp only [List.mem_filter, List.mem_reverse, mem_fullBlocks, decide_eq_true_eq]
  constructor
  · rintro ⟨i, ⟨⟨hi, hfull⟩, hbucket⟩, rfl⟩
    exact ⟨i, hi, hfull, hbucket, rfl⟩
  · rintro ⟨i, hi, hfull, hbucket, rfl⟩
    exact ⟨i, ⟨⟨hi, hfull⟩, hbucket⟩, rfl⟩

theorem bucket_descending {b : ℕ} (hb : b < kBuckets) :
    (((buildCsr sig).bucket b).map Entry.blockIndex).Pairwise (· > ·) := by
  have hindex : ∀ l : List ℕ, (l.map (entryOf sig)).map Entry.blockIndex = l := by
    intro l
    rw [List.map_map]
    exact List.map_id l
  have hrange : (fullBlocks sig).reverse.Pairwise (· > ·) := by
    rw [List.pairwise_reverse]
    exact List.Pairwise.filter _ List.pairwise_lt_range
  rw [bucket_eq sig hb, hindex]
  exact hrange.filter _

theorem buildCsr_entries_size : (buildCsr sig).entries.size =
    start (bucketOfBlock sig) (fullBlocks sig) kBuckets := by
  -- a placement writes in place, so the size is that of the array to start with
  have hplace : ∀ (order : List ℕ) (a : Array Entry × Array ℕ),
      (order.foldl (place (bucketOfBlock sig) (entryOf sig) u32) a).1.size = a.1.size := by
    intro order
    induction order with
    | nil =>
      intro a
      rfl
    | cons i order ih =>
      intro a
      rw [List.foldl_cons, ih]
      simp [place]
  rw [start_eq_length _ fun i hi => bucketOfBlock_lt sig hi]
  simp only [buildCsr, fillEntries_eq, hplace]
  exact entries_size sig

theorem buildCsr_laidOut : (buildCsr sig).LaidOut sig := by
  have hstart : ∀ b ≤ kBuckets, (buildCsr sig).bucketStart.getD b 0 =
      start (bucketOfBlock sig) (fullBlocks sig) b := by
    intro b hb
    rw [← prefixSums_getD sig hb, buildCsr]
  refine ⟨fun b hb => mem_bucket sig hb, fun b hb => bucket_descending sig hb, ?_, ?_, ?_⟩
  · intro b hb
    rw [hstart b (by omega), hstart (b + 1) (by omega)]
    exact start_mono _ _ (by omega)
  · intro b hb
    rw [hstart (b + 1) (by omega), buildCsr_entries_size]
    exact start_mono _ _ (by omega)
  · intro k hk
    rw [buildCsr_entries_size] at hk
    obtain ⟨b, ⟨hb, h1, h2⟩, huniq⟩ := exists_bucket _ _ hk
    refine ⟨b, ⟨hb, ?_, ?_⟩, ?_⟩
    · rwa [hstart b (by omega)]
    · rwa [hstart (b + 1) (by omega)]
    · rintro c ⟨hc, hc1, hc2⟩
      rw [hstart c (by omega)] at hc1
      rw [hstart (c + 1) (by omega)] at hc2
      exact huniq c ⟨hc, hc1, hc2⟩

/-- **The passes stay inside their arrays and lay out the blocks.** -/
theorem buildCsr_checked (hblocks : sig.blocks.size = sig.blockCount) :
    ∃ csr, buildCsrChecked sig = some csr ∧ csr = buildCsr sig ∧ csr.LaidOut sig :=
  ⟨buildCsr sig, buildCsrChecked_eq hblocks, rfl, buildCsr_laidOut sig⟩

/-- Three full blocks, two of one checksum, and a short block at the end. -/
def sharedBucket : SignatureSet where
  fileSize := 7
  blockSize := 2
  blockCount := 4
  strongLen := 8
  blocks := #[⟨5, Vector.replicate 16 0⟩, ⟨9, Vector.replicate 16 0⟩, ⟨5, Vector.replicate 16 0⟩,
    ⟨5, Vector.replicate 16 0⟩]

theorem buildCsr_checked_shared : ∃ csr, buildCsrChecked sharedBucket = some csr ∧
    csr = buildCsr sharedBucket ∧ csr.LaidOut sharedBucket :=
  buildCsr_checked sharedBucket rfl

end FastClone.Delta
