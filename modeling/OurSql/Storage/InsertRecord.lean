import OurSql.Storage.SlottedPage

/-! `InsertRecord` near the limit of a page: it finds room exactly when there is any, whatever
the holes between the records, and its unsigned subtractions stay in range. -/
namespace OurSql
namespace Storage.SlottedPage

open Bytes Memory

variable {data : Mem} {record : List UInt8} {count freeEnd : ℕ}

/-! ### Records of a valid page -/

/-- Intervals that do not meet fill at most the room they are in. -/
theorem sum_intervals_le {ι : Type} (s : Finset ι) {lower upper : ℕ} (first length : ι → ℕ)
    (hin : ∀ i ∈ s, lower ≤ first i ∧ first i + length i ≤ upper)
    (hapart : ∀ i ∈ s, ∀ j ∈ s, i ≠ j →
      first i + length i ≤ first j ∨ first j + length j ≤ first i) :
    ∑ i ∈ s, length i ≤ upper - lower := by
  have hdisjoint : (s : Set ι).PairwiseDisjoint fun i =>
      Finset.Ico (first i) (first i + length i) := by
    intro i hi j hj hij
    refine Finset.disjoint_left.mpr fun x hx hx' => ?_
    rw [Finset.mem_Ico] at hx hx'
    rcases hapart i hi j hj hij with h | h <;> omega
  have hsub : (s.biUnion fun i => Finset.Ico (first i) (first i + length i)) ⊆
      Finset.Ico lower upper := by
    intro x hx
    obtain ⟨i,hi,hx⟩ := Finset.mem_biUnion.mp hx
    have hb := hin i hi
    rw [Finset.mem_Ico] at hx ⊢
    omega
  calc ∑ i ∈ s, length i = ∑ i ∈ s, (Finset.Ico (first i) (first i + length i)).card :=
        Finset.sum_congr rfl fun i _ => by rw [Nat.card_Ico,Nat.add_sub_cancel_left]
    _ = (s.biUnion fun i => Finset.Ico (first i) (first i + length i)).card :=
        (Finset.card_biUnion hdisjoint).symm
    _ ≤ (Finset.Ico lower upper).card := Finset.card_le_card hsub
    _ = upper - lower := Nat.card_Ico ..

theorem activeBytes_eq_sum (data : Mem) (n : ℕ) : activeBytes data n =
    ∑ s ∈ (Finset.range n).filter fun s => slotField data s 8 = kUsedSlot, slotField data s 4 := by
  rw [Finset.sum_filter]
  induction n with
  | zero => rfl
  | succ n ih => rw [activeBytes,Finset.sum_range_succ,ih]

theorem validateSlots_slot {freeStart : ℕ} : ∀ {n slot : ℕ},
    validateSlots data freeStart freeEnd slot n = .ok () → ∀ s, slot ≤ s → s < slot + n →
      validateSlot data freeStart freeEnd s = .ok ()
  | 0, slot, _, s, hs, hs' => by omega
  | n+1, slot, h, s, hs, hs' => by
    rw [validateSlots] at h
    split at h
    · cases h
    · next hslot =>
      by_cases he : s = slot
      · rw [he,hslot]
      · exact validateSlots_slot h s (by omega) (by omega)

/-- What `ValidateBytes` has checked about one slot. -/
structure Checked (data : Mem) (freeEnd slot : ℕ) : Prop where
  deleted : slotField data slot 8 ≠ 1 →
    slotField data slot 8 = 0 ∧ slotField data slot 0 = 0 ∧ slotField data slot 4 = 0
  bounds : slotField data slot 8 = 1 → freeEnd ≤ slotField data slot 0 ∧
    slotField data slot 0 + slotField data slot 4 ≤ 4096
  apart : slotField data slot 8 = 1 → ∀ prior < slot, slotField data prior 8 = 1 →
    slotField data prior 0 + slotField data prior 4 ≤ slotField data slot 0 ∨
      slotField data slot 0 + slotField data slot 4 ≤ slotField data prior 0

theorem checked_of_validateSlot {freeStart slot : ℕ}
    (h : validateSlot data freeStart freeEnd slot = .ok ()) : Checked data freeEnd slot := by
  rw [validateSlot] at h
  split at h
  · cases h
  next hstate =>
  split at h
  · next hdel =>
    split at h
    · cases h
    · simp only [kDeletedSlot] at hdel
      exact ⟨fun _ => by omega,fun hu => by omega,fun hu => by omega⟩
  next hused =>
  split at h
  · cases h
  next hbound =>
  split at h
  · cases h
  next hover =>
  simp only [kDeletedSlot,kUsedSlot] at hstate hused
  simp only [kSize] at hbound
  refine ⟨fun hu => by omega,fun _ => by omega,fun _ prior hp hpu => ?_⟩
  have hnot := List.any_eq_false.mp (Bool.not_eq_true _ ▸ hover) prior (List.mem_range.mpr hp)
  simp only [overlaps,kUsedSlot,hpu,decide_true,Bool.true_and,Bool.and_eq_true,
    Bool.not_eq_true',decide_eq_false_iff_not] at hnot
  omega

theorem layout_of_valid (h : validateBytes data = .ok ()) :
    Layout data (load data kSlotCountOffset) (load data kFreeEndOffset) := by
  rw [validateBytes] at h
  split at h
  · cases h
  next htype =>
  split at h
  · cases h
  next hreserved =>
  split at h
  · cases h
  split at h
  · cases h
  next hbound =>
  split at h
  · cases h
  next hnext =>
  simp only [kPageTypeOffset,kPageType,kReservedOffset,Nat.reduceAdd] at htype hreserved
  simp only [kSize,kHeaderSize,kSlotSize,kFreeStartOffset] at hbound
  have hchecked : ∀ s < load data kSlotCountOffset, Checked data (load data kFreeEndOffset) s :=
    fun s hs => checked_of_validateSlot (validateSlots_slot h s (by omega) (by omega))
  have hapart : ∀ s < load data kSlotCountOffset, ∀ t < load data kSlotCountOffset, s ≠ t →
      slotField data s 8 = 1 → slotField data t 8 = 1 →
      slotField data s 0 + slotField data s 4 ≤ slotField data t 0 ∨
        slotField data t 0 + slotField data t 4 ≤ slotField data s 0 := by
    intro s hs t ht hst hus hut
    rcases Nat.lt_or_gt_of_ne hst with hlt | hlt
    · exact (hchecked t ht).apart hut s hlt hus
    · exact ((hchecked s hs).apart hus t hlt hut).symm
  have hactive : activeBytes data (load data kSlotCountOffset) ≤
      4096 - load data kFreeEndOffset := by
    rw [activeBytes_eq_sum]
    refine sum_intervals_le _ (slotField data · 0) (slotField data · 4) (fun s hs => ?_)
      (fun s hs t ht hst => ?_)
    · obtain ⟨hs,hu⟩ := Finset.mem_filter.mp hs
      exact (hchecked s (Finset.mem_range.mp hs)).bounds hu
    · obtain ⟨hs,hus⟩ := Finset.mem_filter.mp hs
      obtain ⟨ht,hut⟩ := Finset.mem_filter.mp ht
      exact hapart s (Finset.mem_range.mp hs) t (Finset.mem_range.mp ht) hst hus hut
  refine ⟨by omega,rfl,by omega,rfl,hnext,by omega,by omega,by omega,?_,?_,hapart⟩
  · exact fun s hs => (hchecked s hs).deleted
  · exact fun s hs => (hchecked s hs).bounds

/-! ### The room for one more record -/

/-- What a new record adds to the directory: a deleted slot is reused. -/
def slotRoom (data : Mem) : ℕ :=
  if ∃ slot < load data kSlotCountOffset, slotField data slot 8 = kDeletedSlot then 0 else kSlotSize

/-- The record fits in the page beside the directory and the live records. -/
def Fits (data : Mem) (record : List UInt8) : Prop :=
  record.length ≤ kMaxRecordSize ∧ record.length + slotRoom data +
    (kHeaderSize + load data kSlotCountOffset * kSlotSize) +
      activeBytes data (load data kSlotCountOffset) ≤ kSize

/-- The unsigned subtractions of `InsertRecord` and `Compact`, each with its operands at the
time. That of the test for contiguous room stands behind its own guard. -/
structure NoUnderflow (data : Mem) (record : List UInt8) : Prop where
  totalFree : load data kFreeStartOffset + activeBytes data (load data kSlotCountOffset) ≤ kSize
  move : ∀ slot < load data kSlotCountOffset, slotField data slot 8 = kUsedSlot →
    slotField data slot 4 ≤ (compactSlots data 0 slot data kSize).2
  fill : load data kFreeStartOffset ≤
    (compactSlots data 0 (load data kSlotCountOffset) data kSize).2
  place : ∀ page ∈ [data,(compact data).1], hasContiguousSpace (load page kSlotCountOffset)
    (load page kFreeEndOffset) (reusableSlot data (load data kSlotCountOffset)) record.length →
      record.length ≤ load page kFreeEndOffset

/-- An insertion succeeds when the record fits, and fails for no other reason. -/
structure InsertsExactly (data : Mem) (record : List UInt8) : Prop where
  success : (∃ slot, (insertRecord data record).2 = .ok slot) ↔ Fits data record
  error : ∀ e, (insertRecord data record).2 = .error e →
    e = ⟨.invalidArgument,"记录长度超过页面格式上限"⟩ ∨
    e = ⟨.recordTooLarge,"单条记录超过 Slotted Page 上限: " ++ toString kMaxRecordSize⟩ ∨
    e = ⟨.outOfSpace,"页面没有足够的总空间容纳记录"⟩
  noUnderflow : NoUnderflow data record

theorem slotRoom_eq (data : Mem) : slotRoom data =
    if reusableSlot data (load data kSlotCountOffset) = none then kSlotSize else 0 := by
  have hiff : reusableSlot data (load data kSlotCountOffset) = none ↔
      ¬ ∃ slot < load data kSlotCountOffset, slotField data slot 8 = kDeletedSlot := by
    simp [reusableSlot]
  rw [slotRoom]
  by_cases h : ∃ slot < load data kSlotCountOffset, slotField data slot 8 = kDeletedSlot
  · rw [if_pos h,if_neg (fun hn => hiff.mp hn h)]
  · rw [if_neg h,if_pos (hiff.mpr h)]

/-- `Compact` moves its end down by the bytes of the records it has met. -/
theorem compactSlots_end (old : Mem) : ∀ (n k : ℕ) (data : Mem) (e : ℕ),
    e + activeBytes old k = kSize → activeBytes old (k + n) ≤ kSize →
      (compactSlots old k n data e).2 + activeBytes old (k + n) = kSize
  | 0, _, _, _, he, _ => he
  | n+1, k, data, e, he, hle => by
    have hmono := activeBytes_mono old (show k + 1 ≤ k + (n + 1) by omega)
    have hactive : activeBytes old (k + 1) = activeBytes old k +
        if slotField old k 8 = kUsedSlot then slotField old k 4 else 0 := rfl
    rw [compactSlots]
    rw [show k + (n + 1) = k + 1 + n by omega] at hle hmono ⊢
    by_cases hu : slotField old k 8 = kUsedSlot
    · rw [if_pos hu] at hactive
      rw [if_neg (not_not.mpr hu)]
      exact compactSlots_end old n (k + 1) _ _ (by omega) hle
    · rw [if_neg hu] at hactive
      rw [if_pos hu]
      exact compactSlots_end old n (k + 1) _ _ (by omega) hle

theorem Layout.noUnderflow (hl : Layout data count freeEnd) : NoUnderflow data record := by
  have hroom := hl.room
  have hfits := hl.fits
  have hend : ∀ slot ≤ count, (compactSlots data 0 slot data kSize).2 + activeBytes data slot =
      kSize := by
    intro slot hslot
    have hmono := activeBytes_mono data hslot
    have he := compactSlots_end data slot 0 data kSize rfl
    rw [Nat.zero_add] at he
    exact he (by rw [kSize]; omega)
  have hcount : load data kSlotCountOffset = count := hl.slotCount
  have hstart : load data kFreeStartOffset = 32 + count * 12 := hl.freeStart
  constructor
  · rw [hcount,hstart,kSize]
    omega
  · intro slot hslot hu
    rw [hcount] at hslot
    have he := hend slot (by omega)
    have hmono := activeBytes_mono data (show slot + 1 ≤ count from hslot)
    rw [activeBytes,if_pos hu] at hmono
    rw [kSize] at he ⊢
    omega
  · rw [hcount,hstart]
    have he := hend count (Nat.le_refl _)
    rw [kSize] at he ⊢
    omega
  · intro page _ hspace
    simp only [hasContiguousSpace,Bool.and_eq_true,decide_eq_true_eq] at hspace
    omega

/-- The compacted page has all its free room in one piece. -/
theorem Layout.contiguous {reusable : Option ℕ} (hl : Layout data count freeEnd)
    (hfit : newFreeStart count reusable + record.length + activeBytes data count ≤ kSize) :
    (SlottedPage.compact data).2 = .ok () ∧
      hasContiguousSpace (load (SlottedPage.compact data).1 kSlotCountOffset)
        (load (SlottedPage.compact data).1 kFreeEndOffset) reusable record.length = true := by
  obtain ⟨e,hok,hlay,-,hactive,-,-⟩ := hl.compact
  refine ⟨hok,?_⟩
  rw [show load (SlottedPage.compact data).1 kSlotCountOffset = count from hlay.slotCount,
    show load (SlottedPage.compact data).1 kFreeEndOffset = e from hlay.freeEnd_eq]
  rw [kSize] at hfit
  simp only [hasContiguousSpace,Bool.and_eq_true,decide_eq_true_eq]
  omega

theorem newFreeStart_eq (count : ℕ) (reusable : Option ℕ) : newFreeStart count reusable =
    kHeaderSize + count * kSlotSize + if reusable = none then kSlotSize else 0 := by
  rw [newFreeStart]
  split_ifs <;> simp only [kHeaderSize,kSlotSize] <;> omega

/-- The total room decides, and nothing after it fails. -/
theorem Layout.insertRecord_result (hl : Layout data count freeEnd) (record : List UInt8) :
    (Fits data record → ∃ slot, (SlottedPage.insertRecord data record).2 = .ok slot) ∧
    (¬ Fits data record → ∃ e, (SlottedPage.insertRecord data record).2 = .error e ∧
      (e = ⟨.invalidArgument,"记录长度超过页面格式上限"⟩ ∨
        e = ⟨.recordTooLarge,"单条记录超过 Slotted Page 上限: " ++ toString kMaxRecordSize⟩ ∨
        e = ⟨.outOfSpace,"页面没有足够的总空间容纳记录"⟩)) := by
  have hroom := hl.room
  have hfits := hl.fits
  have hcount : load data kSlotCountOffset = count := hl.slotCount
  have hstart : load data kFreeStartOffset = 32 + count * 12 := hl.freeStart
  rw [Fits,slotRoom_eq,SlottedPage.insertRecord,hl.valid]
  simp only [hcount,hstart]
  generalize reusableSlot data count = reusable
  by_cases hbig : 4294967295 < record.length
  · rw [if_pos hbig]
    have hmax : ¬ record.length ≤ kMaxRecordSize := by
      simp only [kMaxRecordSize,kSize,kHeaderSize,kSlotSize]
      omega
    exact ⟨fun h => absurd h.1 hmax,fun _ => ⟨_,rfl,.inl rfl⟩⟩
  rw [if_neg hbig]
  by_cases hmax : kMaxRecordSize < record.length
  · rw [if_pos hmax]
    exact ⟨fun h => absurd h.1 (not_le.mpr hmax),fun _ => ⟨_,rfl,.inr (.inl rfl)⟩⟩
  rw [if_neg hmax]
  have htotal : (18446744073709551616 + kSize - (32 + count * 12) - activeBytes data count) %
      18446744073709551616 = 4096 - (32 + count * 12) - activeBytes data count := by
    simp only [kSize]
    omega
  rw [htotal]
  by_cases htot : 4096 - (32 + count * 12) - activeBytes data count <
      record.length + if reusable = none then kSlotSize else 0
  · rw [if_pos htot]
    refine ⟨fun h => ?_,fun _ => ⟨_,rfl,.inr (.inr rfl)⟩⟩
    have h := h.2
    simp only [kSize,kHeaderSize] at h
    rw [show count * kSlotSize = count * 12 from rfl] at h
    omega
  rw [if_neg htot]
  have hfit : newFreeStart count reusable + record.length + activeBytes data count ≤ kSize := by
    rw [newFreeStart_eq]
    simp only [kSize,kHeaderSize]
    rw [show count * kSlotSize = count * 12 from rfl]
    omega
  have hslots : ¬ (reusable = none ∧ maxSlots ≤ count) := by
    rintro ⟨hnone,hfull⟩
    rw [newFreeStart_eq,if_pos hnone] at hfit
    simp only [maxSlots,kSize,kHeaderSize,kSlotSize] at hfull hfit
    omega
  rw [if_neg hslots]
  refine ⟨fun _ => ?_,fun h => absurd ⟨not_lt.mp hmax,?_⟩ h⟩
  · split
    · exact ⟨_,rfl⟩
    · obtain ⟨hok,hspace⟩ := hl.contiguous hfit
      generalize SlottedPage.compact data = compacted at hok hspace
      obtain ⟨data',status⟩ := compacted
      obtain rfl : status = .ok () := hok
      dsimp only at hspace ⊢
      rw [if_pos hspace]
      exact ⟨_,rfl⟩
  · rw [newFreeStart_eq] at hfit
    omega

/-- `InsertRecord` uses all the free space of a valid page. -/
theorem insertRecord_exact (h : validateBytes data = .ok ()) (record : List UInt8) :
    InsertsExactly data record := by
  have hl := layout_of_valid h
  obtain ⟨hfits,hfails⟩ := hl.insertRecord_result record
  refine ⟨⟨?_,hfits⟩,?_,hl.noUnderflow⟩
  · rintro ⟨slot,hok⟩
    by_contra hn
    obtain ⟨e,he,-⟩ := hfails hn
    rw [hok] at he
    cases he
  · intro e he
    by_cases hf : Fits data record
    · obtain ⟨slot,hok⟩ := hfits hf
      rw [hok] at he
      cases he
    · obtain ⟨e',he',hmessage⟩ := hfails hf
      rw [he,Except.error.injEq] at he'
      rw [he']
      exact hmessage

/-- An empty page takes the largest record. -/
theorem insertRecord_exact_largest :
    InsertsExactly (initializePage (fun _ => 0) 1).1 (List.replicate 4052 7) :=
  insertRecord_exact (layout_initializePage (show (1 : UInt32) ≠ 0 by decide)).2.1.valid _


end Storage.SlottedPage
end OurSql
