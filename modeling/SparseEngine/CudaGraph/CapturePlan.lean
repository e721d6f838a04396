import SparseEngine.CudaGraph.Model

/-!
# The automatic capture plan

The default sizes are `1` to `8`, then multiples of an aligned stride, then
the largest decode batch.  The stride leaves room for at most 23 sizes between
the dense start and the largest (`middle_length`).  The second pass keeps the
dense start and thins the tail.  Rounded indices of the tail may collide, so
it may keep fewer sizes than the limit.  The last index is rounded to itself,
so the largest size always stays.

`CoversTo` is what both passes keep: an increasing list of positive sizes that
ends in the largest batch.
-/

namespace CudaGraph

variable {sizes : List ℤ} {largest limit maxBatchSize : ℤ}

/-- An increasing list of positive sizes with `largest` as its last. -/
structure CoversTo (sizes : List ℤ) (largest : ℤ) : Prop where
  increasing : sizes.Pairwise (· < ·)
  positive : ∀ size ∈ sizes, 1 ≤ size
  mem : largest ∈ sizes
  le : ∀ size ∈ sizes, size ≤ largest

/-! ## Reading a covering list -/

variable {index remaining tailLength : ℤ}

theorem itemAt_of_lt {items : List ℤ} (hnonneg : 0 ≤ index) (hlt : index < items.length) :
    ∃ item ∈ items, itemAt items index = .ok item ∧ items[index.toNat]? = some item := by
  have hbound : index.toNat < items.length := by omega
  refine ⟨items[index.toNat], List.getElem_mem hbound, ?_, List.getElem?_eq_getElem hbound⟩
  simp [itemAt, not_lt.mpr hnonneg, hbound]

namespace CoversTo

section

variable (h : CoversTo sizes largest)

include h

theorem ne_nil : sizes ≠ [] := List.ne_nil_of_mem h.mem

theorem getLast? : sizes.getLast? = some largest :=
  getLast?_eq_of_increasing h.increasing h.mem h.le

theorem sortedSet_eq : sortedSet sizes = sizes := sortedSet_eq_self h.increasing

theorem not_invalid : ¬(sizes = [] ∨ ∃ size ∈ sizes, size ≤ 0) := by
  rintro (hnil | ⟨size, hsize, hle⟩)
  · exact h.ne_nil hnil
  · have := h.positive size hsize
    omega

theorem itemAt_last : itemAt sizes (-1) = .ok largest := by
  have hlength : 0 < sizes.length := List.length_pos_of_mem h.mem
  have hposition : (-1 + (sizes.length : ℤ)).toNat = sizes.length - 1 := by omega
  have hlast : sizes[sizes.length - 1]? = some largest := by
    rw [← List.getLast?_eq_getElem?]
    exact h.getLast?
  have hnonneg : ¬(-1 + (sizes.length : ℤ) < 0) := by omega
  simp [itemAt, hposition, hlast, hnonneg]

/-- A batch that the largest size covers is padded to the least size that covers
it. -/
theorem select {batch : ℤ} (hbatch : 1 ≤ batch) (hle : batch ≤ largest) :
    ∃ captured ∈ sizes, selectDecodeCudaGraphBatchSize batch sizes = .ok captured ∧ batch ≤ captured ∧
      ∀ other ∈ sizes, batch ≤ other → captured ≤ other := by
  obtain ⟨captured, hmem, hfind, hreaches, hleast⟩ := find?_eq_of_increasing h.increasing h.mem hle
  refine ⟨captured, hmem, ?_, hreaches, hleast⟩
  rw [selectDecodeCudaGraphBatchSize, if_neg (by omega)]
  simp only [h.sortedSet_eq, if_neg h.not_invalid, hfind]

/-- The startup plan has one entry a size, the largest first. -/
theorem startupPlan (hlimit : sizes.length ≤ limit) (maxModelLen : ℤ) :
    buildDecodeCudaGraphStartupPlan sizes limit maxModelLen =
      .ok (sizes.reverse.map fun size => (size, maxModelLen)) := by
  simp only [buildDecodeCudaGraphStartupPlan, h.sortedSet_eq, if_neg (not_lt.mpr hlimit)]

/-- The set of some of the sizes covers as much, if the largest is among
them. -/
theorem of_subset {kept : List ℤ} (hsubset : ∀ size ∈ kept, size ∈ sizes) (hmem : largest ∈ kept) :
    CoversTo (sortedSet kept) largest where
  increasing := sortedSet_pairwise kept
  positive := fun size hsize => h.positive size (hsubset size (mem_sortedSet.mp hsize))
  mem := mem_sortedSet.mpr hmem
  le := fun size hsize => h.le size (hsubset size (mem_sortedSet.mp hsize))

end

end CoversTo

/-! ## The default sizes -/

/-- The aligned stride above the dense start. -/
def alignedStride (maxBatchSize : ℤ) : ℤ := (max 4 ((maxBatchSize - 8 + (32 - 8) - 1) / (32 - 8)) + 3) / 4 * 4

theorem four_le_alignedStride (maxBatchSize : ℤ) : 4 ≤ alignedStride maxBatchSize := by
  have : 4 ≤ max 4 ((maxBatchSize - 8 + (32 - 8) - 1) / (32 - 8)) := le_max_left _ _
  unfold alignedStride
  omega

/-- Twenty-four strides reach the largest batch. -/
theorem le_alignedStride_mul (maxBatchSize : ℤ) : maxBatchSize - 8 ≤ 24 * alignedStride maxBatchSize := by
  have : (maxBatchSize - 8 + (32 - 8) - 1) / (32 - 8) ≤
      max 4 ((maxBatchSize - 8 + (32 - 8) - 1) / (32 - 8)) := le_max_right _ _
  unfold alignedStride
  omega

/-- Between the dense start and the largest batch there are at most 23 sizes. -/
theorem middle_length (maxBatchSize : ℤ) :
    (intRange (8 + alignedStride maxBatchSize) maxBatchSize (alignedStride maxBatchSize)).length ≤ 23 := by
  have hpositive := four_le_alignedStride maxBatchSize
  have hreach := le_alignedStride_mul maxBatchSize
  rw [intRange_length]
  generalize alignedStride maxBatchSize = stride at hpositive hreach
  have hquotient : (maxBatchSize - (8 + stride) + stride - 1) / stride < 24 := by
    rw [Int.ediv_lt_iff_lt_mul (by omega)]
    omega
  omega

theorem defaultSizes_of_le (hpositive : 1 ≤ maxBatchSize) (hle : maxBatchSize ≤ 8) :
    defaultDecodeCudaGraphCaptureSizes maxBatchSize = .ok (intRange 1 (maxBatchSize + 1) 1) := by
  rw [defaultDecodeCudaGraphCaptureSizes, if_neg (by omega)]
  simp only [min_eq_right hle, le_refl, if_true]

theorem defaultSizes_of_lt (hlt : 8 < maxBatchSize) :
    defaultDecodeCudaGraphCaptureSizes maxBatchSize = .ok (intRange 1 (8 + 1) 1 ++
      intRange (8 + alignedStride maxBatchSize) maxBatchSize (alignedStride maxBatchSize) ++ [maxBatchSize]) := by
  rw [defaultDecodeCudaGraphCaptureSizes, if_neg (by omega)]
  simp only [min_eq_left hlt.le, if_neg (not_le.mpr hlt), alignedStride]

/-- The default sizes are at most 32, cover the largest batch and start with `1`
to `8`. -/
theorem defaultSizes_spec (hpositive : 1 ≤ maxBatchSize) :
    ∃ sizes, defaultDecodeCudaGraphCaptureSizes maxBatchSize = .ok sizes ∧ CoversTo sizes maxBatchSize ∧
      sizes.length ≤ 32 ∧ intRange 1 (min 8 maxBatchSize + 1) 1 <+: sizes := by
  rcases le_or_gt maxBatchSize 8 with hle | hlt
  · refine ⟨_, defaultSizes_of_le hpositive hle, ⟨intRange_pairwise one_pos, ?_, ?_, ?_⟩, ?_, ?_⟩
    · exact fun size hsize => (mem_intRange_bounds one_pos hsize).1
    · exact mem_intRange_one.mpr ⟨hpositive, by omega⟩
    · intro size hsize
      have := (mem_intRange_bounds one_pos hsize).2
      omega
    · rw [intRange_length, Int.ediv_one]
      omega
    · exact (min_eq_right hle).symm ▸ List.prefix_rfl
  · have hstride := four_le_alignedStride maxBatchSize
    have hmiddle := middle_length maxBatchSize
    refine ⟨_, defaultSizes_of_lt hlt, ⟨?_, ?_, by simp, ?_⟩, ?_, ?_⟩
    · -- the dense sizes end below the first stride, and the strides below the largest batch
      rw [List.pairwise_append, List.pairwise_append]
      refine ⟨⟨intRange_pairwise one_pos, intRange_pairwise (by omega), ?_⟩, by simp, ?_⟩
      · intro first hfirst second hsecond
        have := (mem_intRange_bounds one_pos hfirst).2
        have := (mem_intRange_bounds (by omega) hsecond).1
        omega
      · intro first hfirst second hsecond
        obtain rfl := List.mem_singleton.mp hsecond
        rcases List.mem_append.mp hfirst with hfirst | hfirst
        · have := (mem_intRange_bounds one_pos hfirst).2
          omega
        · exact (mem_intRange_bounds (by omega) hfirst).2
    · intro size hsize
      simp only [List.mem_append, List.mem_singleton] at hsize
      rcases hsize with (hsize | hsize) | rfl
      · exact (mem_intRange_bounds one_pos hsize).1
      · have := (mem_intRange_bounds (by omega) hsize).1
        omega
      · exact hpositive
    · intro size hsize
      simp only [List.mem_append, List.mem_singleton] at hsize
      rcases hsize with (hsize | hsize) | rfl
      · have := (mem_intRange_bounds one_pos hsize).2
        omega
      · exact (mem_intRange_bounds (by omega) hsize).2.le
      · exact le_rfl
    · have hdense : (intRange 1 (8 + 1) 1).length = 8 := by decide
      simp only [List.length_append, List.length_singleton, hdense]
      omega
    · rw [min_eq_left hlt.le, List.append_assoc]
      exact List.prefix_append _ _

/-! ## Thinning to the limit -/

theorem spacedIndices_length (tailLength : ℤ) (hremaining : 1 ≤ remaining) :
    (spacedIndices tailLength remaining).length ≤ remaining := by
  unfold spacedIndices
  split_ifs with hmany
  · have hle := sortedSet_length_le ((intRange 0 remaining 1).map fun index =>
      roundHalfEven ((index * (tailLength - 1) : ℤ) / (remaining - 1 : ℤ)))
    rw [List.length_map, intRange_length, Int.ediv_one] at hle
    omega
  · simpa using hremaining

/-- The indices stay inside the tail. -/
theorem mem_spacedIndices (htail : 1 ≤ tailLength)
    (hmem : index ∈ spacedIndices tailLength remaining) : 0 ≤ index ∧ index < tailLength := by
  unfold spacedIndices at hmem
  split_ifs at hmem with hmany
  · obtain ⟨place, hplace, rfl⟩ := List.mem_map.mp (mem_sortedSet.mp hmem)
    obtain ⟨hnonneg, hbelow⟩ := mem_intRange_bounds one_pos hplace
    have hdenominator : (0 : ℚ) < (remaining - 1 : ℤ) := by exact_mod_cast (by omega : 0 < remaining - 1)
    have hnumerator : (0 : ℚ) ≤ (place * (tailLength - 1) : ℤ) := by
      exact_mod_cast Int.mul_nonneg hnonneg (by omega)
    refine ⟨roundHalfEven_nonneg (div_nonneg hnumerator hdenominator.le), ?_⟩
    have hle : roundHalfEven ((place * (tailLength - 1) : ℤ) / (remaining - 1 : ℤ)) ≤ tailLength - 1 := by
      refine roundHalfEven_le ((div_le_iff₀ hdenominator).mpr ?_)
      have hproduct : place * (tailLength - 1) ≤ (tailLength - 1) * (remaining - 1) := by
        rw [Int.mul_comm (tailLength - 1)]
        exact Int.mul_le_mul_of_nonneg_right (by omega) (by omega)
      exact_mod_cast hproduct
    omega
  · rw [List.mem_singleton] at hmem
    omega

/-- The last index of the tail is kept: its quotient is exact. -/
theorem last_mem_spacedIndices : tailLength - 1 ∈ spacedIndices tailLength remaining := by
  unfold spacedIndices
  split_ifs with hmany
  · refine mem_sortedSet.mpr (List.mem_map.mpr ⟨remaining - 1, mem_intRange_one.mpr (by omega), ?_⟩)
    have hne : ((remaining - 1 : ℤ) : ℚ) ≠ 0 := by exact_mod_cast (by omega : remaining - 1 ≠ 0)
    have hquotient : (((remaining - 1) * (tailLength - 1) : ℤ) : ℚ) / (remaining - 1 : ℤ) = (tailLength - 1 : ℤ) := by
      rw [Int.cast_mul, mul_div_cancel_left₀ _ hne]
    rw [hquotient, roundHalfEven_intCast]
  · exact List.mem_singleton_self _

/-- Reading the tail at indices inside it succeeds, one item an index. -/
theorem mapM_itemAt (items indices : List ℤ) (hindices : ∀ index ∈ indices, 0 ≤ index ∧ index < items.length) :
    ∃ kept, indices.mapM (itemAt items) = .ok kept ∧ kept.length = indices.length ∧
      (∀ item ∈ kept, item ∈ items) ∧ ∀ index ∈ indices, ∀ item, items[index.toNat]? = some item → item ∈ kept := by
  induction indices with
  | nil => exact ⟨[], rfl, rfl, by simp, by simp⟩
  | cons index indices ih =>
      obtain ⟨hnonneg, hlt⟩ := hindices index List.mem_cons_self
      obtain ⟨item, hitem, hread, hat⟩ := itemAt_of_lt hnonneg hlt
      obtain ⟨kept, hkept, hlength, hmem, hall⟩ := ih fun other hother =>
        hindices other (List.mem_cons_of_mem _ hother)
      refine ⟨item :: kept, ?_, by simp [hlength], ?_, ?_⟩
      · rw [List.mapM_cons, hread, hkept]
        rfl
      · simpa [hitem] using hmem
      · intro other hother value hvalue
        rcases List.mem_cons.mp hother with rfl | hother
        · rw [hat] at hvalue
          obtain rfl := Option.some.inj hvalue
          exact List.mem_cons_self
        · exact List.mem_cons_of_mem _ (hall other hother value hvalue)

/-- Thinning keeps the cover, the dense start and at most `limit` of the
sizes. -/
theorem CoversTo.evenlySpaced (h : CoversTo sizes largest) (hlimit : 1 ≤ limit) :
    ∃ kept, selectEvenlySpacedSizes sizes limit = .ok kept ∧ CoversTo kept largest ∧ kept.length ≤ limit ∧
      (∀ size ∈ kept, size ∈ sizes) ∧ ∀ size ∈ sizes.take (min 8 (limit - 1)).toNat, size ∈ kept := by
  unfold selectEvenlySpacedSizes
  simp only [h.sortedSet_eq, if_neg (not_le.mpr (by omega : 0 < limit))]
  by_cases hfits : (sizes.length : ℤ) ≤ limit
  · exact ⟨sizes, by rw [if_pos hfits]; rfl, h, hfits, fun _ hsize => hsize,
      fun _ hsize => List.mem_of_mem_take hsize⟩
  · have hdense : (sizes.take (min 8 limit).toNat).length = (min 8 limit).toNat := by
      rw [List.length_take]
      omega
    simp only [if_neg hfits, hdense]
    by_cases hnone : limit - ((min 8 limit).toNat : ℤ) ≤ 0
    · -- no room beyond the dense start: its last place goes to the largest size
      have hcovers : CoversTo (sortedSet ((sizes.take (min 8 limit).toNat).dropLast ++ [largest])) largest := by
        refine h.of_subset ?_ (by simp)
        intro size hsize
        rcases List.mem_append.mp hsize with hsize | hsize
        · exact List.mem_of_mem_take ((List.dropLast_sublist _).subset hsize)
        · obtain rfl := List.mem_singleton.mp hsize
          exact h.mem
      refine ⟨_, by rw [if_pos hnone, h.itemAt_last]; rfl, hcovers, ?_, ?_, ?_⟩
      · have hle := sortedSet_length_le ((sizes.take (min 8 limit).toNat).dropLast ++ [largest])
        rw [List.length_append, List.length_dropLast, hdense, List.length_singleton] at hle
        omega
      · intro size hsize
        rw [mem_sortedSet, List.mem_append, List.mem_singleton] at hsize
        rcases hsize with hsize | rfl
        · exact List.mem_of_mem_take ((List.dropLast_sublist _).subset hsize)
        · exact h.mem
      · intro size hsize
        rw [mem_sortedSet, List.mem_append, List.dropLast_take (by omega)]
        have hcount : (min 8 limit).toNat - 1 = (min 8 (limit - 1)).toNat := by omega
        rw [hcount]
        exact Or.inl hsize
    · -- the tail keeps the indices that are spread over it
      have hlength : ((sizes.drop (min 8 limit).toNat).length : ℤ) = sizes.length - (min 8 limit).toNat := by
        rw [List.length_drop]
        omega
      obtain ⟨kept, hkept, hcount, hmem, hall⟩ := mapM_itemAt (sizes.drop (min 8 limit).toNat)
        (spacedIndices (sizes.drop (min 8 limit).toNat).length (limit - (min 8 limit).toNat)) fun index hindex => mem_spacedIndices (by omega) hindex
      have hlast : largest ∈ kept := by
        refine hall _ last_mem_spacedIndices largest ?_
        rw [List.getElem?_drop]
        have hposition : (min 8 limit).toNat +
            (((sizes.drop (min 8 limit).toNat).length : ℤ) - 1).toNat = sizes.length - 1 := by omega
        rw [hposition, ← List.getLast?_eq_getElem?]
        exact h.getLast?
      have hsubset : ∀ size ∈ sizes.take (min 8 limit).toNat ++ kept, size ∈ sizes := by
        intro size hsize
        rcases List.mem_append.mp hsize with hsize | hsize
        · exact List.mem_of_mem_take hsize
        · exact List.mem_of_mem_drop (hmem size hsize)
      refine ⟨_, by rw [if_neg hnone, hkept]; rfl, h.of_subset hsubset (List.mem_append_right _ hlast), ?_, ?_, ?_⟩
      · have hle := sortedSet_length_le (sizes.take (min 8 limit).toNat ++ kept)
        have hindices := spacedIndices_length (sizes.drop (min 8 limit).toNat).length
          (show 1 ≤ limit - (min 8 limit).toNat by omega)
        rw [List.length_append, hdense, hcount] at hle
        omega
      · exact fun size hsize => hsubset size (mem_sortedSet.mp hsize)
      · intro size hsize
        refine mem_sortedSet.mpr (List.mem_append_left _ ?_)
        have hcut : (min 8 (limit - 1)).toNat ≤ (min 8 limit).toNat := by omega
        exact (List.take_sublist_take_left hcut).subset hsize

/-! ## The plan -/

theorem resolve_automatic {setting : CaptureSetting} (hauto : setting.isAuto = true)
    (hdefaults : defaultDecodeCudaGraphCaptureSizes largest = .ok sizes) (h : CoversTo sizes largest) :
    resolveDecodeCudaGraphCaptureSizes setting largest = .ok sizes := by
  have hpositive : resolvePositiveSizes setting "decode_graph_capture_sizes" (.ok sizes) = .ok sizes := by
    have hstart : settingSizes setting "decode_graph_capture_sizes" (.ok sizes) = .ok sizes := if_pos hauto
    simp only [resolvePositiveSizes, hstart, bind, Except.bind, h.sortedSet_eq, if_neg h.not_invalid]
    rfl
  rw [resolveDecodeCudaGraphCaptureSizes, hdefaults, hpositive]
  simp only [bind, Except.bind, h.itemAt_last, lt_irrefl, if_false, h.mem, not_true_eq_false]
  rfl

namespace GraphConfig

/-- **The automatic plan covers every decode batch.** -/
theorem automatic_plan (config : GraphConfig) (hauto : config.decodeGraphCaptureSizes.isAuto = true)
    (hmax : 1 ≤ config.maxDecodingSeqs) (hlimit : 1 ≤ config.startupCaptureLimit) :
    ∃ plan, config.normalizeCapturePlan = .ok plan ∧ config.captureSizes = .ok plan.captureSizes ∧
      plan.startupCaptureLimit = config.startupCaptureLimit ∧
      plan.captureSizes.Pairwise (· < ·) ∧
      (plan.captureSizes.length : ℤ) ≤ min 32 config.startupCaptureLimit ∧
      (∀ size ∈ plan.captureSizes, 1 ≤ size ∧ size ≤ config.maxDecodingSeqs) ∧
      plan.captureSizes.getLast? = some config.maxDecodingSeqs ∧
      (∀ size, 1 ≤ size → size ≤ 8 → size ≤ config.maxDecodingSeqs →
        size ≤ config.startupCaptureLimit - 1 → size ∈ plan.captureSizes) ∧
      buildDecodeCudaGraphStartupPlan plan.captureSizes config.startupCaptureLimit config.maxModelLen =
        .ok plan.startupPlan ∧
      plan.startupPlan = plan.captureSizes.reverse.map (fun size => (size, config.maxModelLen)) ∧
      ∀ batch, 1 ≤ batch → batch ≤ config.maxDecodingSeqs → ∃ captured ∈ plan.captureSizes,
        selectDecodeCudaGraphBatchSize batch plan.captureSizes = .ok captured ∧ batch ≤ captured ∧
          ∀ other ∈ plan.captureSizes, batch ≤ other → captured ≤ other := by
  obtain ⟨sizes, hdefaults, hcovers, hshort, hdense⟩ := defaultSizes_spec hmax
  obtain ⟨kept, hkept, hkeeps, hlength, hsubset, hstart⟩ := hcovers.evenlySpaced hlimit
  have hsizes : config.captureSizes = .ok kept := by
    rw [captureSizes, resolve_automatic hauto hdefaults hcovers]
    simpa only [bind, Except.bind, hauto, if_true] using hkept
  have hplan := hkeeps.startupPlan hlength config.maxModelLen
  have hnormal : config.normalizeCapturePlan =
      .ok ⟨config.startupCaptureLimit, kept, kept.reverse.map fun size => (size, config.maxModelLen)⟩ := by
    simp only [normalizeCapturePlan, if_neg (not_le.mpr (by omega : 0 < config.startupCaptureLimit)),
      bind, Except.bind, hsizes, hplan]
    rfl
  refine ⟨_, hnormal, hsizes, rfl, hkeeps.increasing, ?_, ?_, hkeeps.getLast?, ?_, hplan, rfl,
    fun batch => hkeeps.select⟩
  · have hle : kept.length ≤ 32 := (length_le_of_increasing hkeeps.increasing hsubset).trans hshort
    exact le_min (by exact_mod_cast hle) hlength
  · exact fun size hsize => ⟨hkeeps.positive size hsize, hkeeps.le size hsize⟩
  · intro size hpositive hdenseEnd hbatch hroom
    refine hstart size ?_
    obtain ⟨rest, rfl⟩ := hdense
    -- size `n` of the dense start is at index `n - 1`
    refine List.mem_iff_getElem?.mpr ⟨(size - 1).toNat, ?_⟩
    rw [List.getElem?_take_of_lt (by omega)]
    have hinside : (size - 1).toNat < (intRange 1 (min 8 config.maxDecodingSeqs + 1) 1).length := by
      rw [intRange_length, Int.ediv_one]
      omega
    rw [List.getElem?_append_left hinside, List.getElem?_eq_getElem hinside]
    simp only [intRange, List.getElem_map, List.getElem_range, Option.some.injEq]
    omega

theorem automatic_plan_thinned : ∃ plan,
    normalizeCapturePlan ⟨true, 300, 4096, some 12, .unset⟩ = .ok plan ∧
      (plan.captureSizes.length : ℤ) ≤ 12 ∧ plan.captureSizes.getLast? = some 300 := by
  obtain ⟨plan, hplan, -, -, -, hlength, -, hlast, -⟩ :=
    automatic_plan ⟨true, 300, 4096, some 12, .unset⟩ rfl (by decide) (by decide)
  exact ⟨plan, hplan, hlength, hlast⟩

end GraphConfig

end CudaGraph
