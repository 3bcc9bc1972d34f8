import NbLot.Guarantees.FatContents

/-!
# Allocation of a cluster, and removal of a chain

`fat_extendchain` with the last cluster of a chain, or with 0 for a new chain, returns for any
content of the FAT and any hint: 0 if no cluster is free, and otherwise a free cluster, which it has
made the end of the chain. No other entry is changed.

`fat_removechain` ends for any content of the FAT, and makes the clusters of a chain free as far as
their numbers are below `fs_nclusters` (`removechain_removes`). A number of free clusters that comes
to 0xffffffff has become an unknown one.
-/
namespace NbLot.Guarantees.FatAllocation
open Source.Fat
open FatContents (tiny tiny_area tinyRecord tinyFs tinyFs_cacheOk)

variable {v : Volume} {fs : Fs}

/-- The last cluster of a chain: its entry is not the number of a cluster, and it is not free. -/
def LastCluster (v : Volume) (fs : Fs) (cluster : Nat) : Prop :=
  2 ≤ cluster ∧ cluster < v.nclusters ∧ v.nclusters ≤ entry v fs cluster

/-- The call returns 0 and has not changed the FAT, or a cluster that was free. -/
theorem extendchain_alloc_or_full (area : 2 ≤ v.nclusters → DataArea v) (ok : CacheOk v fs)
    {cluster : Nat} (hcluster : cluster = 0 ∨ LastCluster v fs cluster) :
    ∃ fs' r, fatExtendchain v fs cluster = some (fs', r) ∧ AllocatedOrFull v fs fs' cluster r := by
  rcases hcluster with rfl | ⟨hlow, hc, hend⟩
  · by_cases hsome : 2 ≤ v.nclusters
    · exact createchain_alloc (area hsome) ok
    · -- the search starts at 1 and is over at once
      have hhint : fs.fsinextfree = 0 ∨ fs.fsinextfree ≥ v.nclusters := by omega
      refine ⟨fs, 0, ?_, .inr ⟨fun c hfree => ?_, rfl, SameFat.refl ok⟩⟩
      · simp only [fatExtendchain, if_true, if_pos hhint, allocCluster, searchFree]
        rw [if_pos ⟨by omega, by decide⟩]
        rfl
      · have := hfree.1
        have := hfree.2.1
        omega
  · exact extendchain_alloc (area (by omega)) ok hlow hc hend

/-- `fat_extendchain` returns 0 exactly when no cluster is free. Otherwise the cluster that it returns
was free and is now the end of the chain, the last cluster of the chain refers to it, all other
entries are as before, and a known number of free clusters is lowered by one. -/
theorem extendchain_allocates (area : 2 ≤ v.nclusters → DataArea v) (ok : CacheOk v fs) {cluster : Nat}
    (hcluster : cluster = 0 ∨ LastCluster v fs cluster) :
    ∃ fs' r, fatExtendchain v fs cluster = some (fs', r) ∧
      (r = 0 ↔ ∀ c, 2 ≤ c → c < v.nclusters → entry v fs c ≠ 0) ∧
      (r ≠ 0 → ∃ new : Nat, r = new ∧ 2 ≤ new ∧ new < v.nclusters ∧ entry v fs new = 0 ∧
        entry v fs' new = endMark v ∧ (cluster ≠ 0 → entry v fs' cluster = new) ∧
        (∀ c < v.nclusters + 2, c ≠ new → ¬(c = cluster ∧ cluster ≠ 0) →
          entry v fs' c = entry v fs c) ∧
        (fs.fsifreecount ≠ 0xffffffff →
          fs'.fsifreecount = uint32 (fs.fsifreecount + (2 ^ 32 - 1)))) := by
  obtain ⟨fs', r, hcall, hresult⟩ := extendchain_alloc_or_full area ok hcluster
  refine ⟨fs', r, hcall, ?_⟩
  rcases hresult with ⟨new, ⟨hlow, hnew, hfree⟩, rfl, halloc⟩ | ⟨hnone, rfl, -⟩
  · have hne : new ≠ cluster := by
      rintro rfl
      rcases hcluster with rfl | ⟨-, -, hend⟩
      · omega
      · omega
    refine ⟨⟨fun h => by omega, fun h => absurd hfree (h new hlow hnew)⟩, fun _ =>
      ⟨new, rfl, hlow, hnew, hfree, ?_, fun hchain => ?_, fun c hc hother hlast => ?_, halloc.freecount⟩⟩
    · rw [halloc.entries new (by omega), if_neg (fun h => hne h.1), if_pos rfl]
    · have hrange : cluster < v.nclusters + 2 := by
        rcases hcluster with rfl | ⟨-, hc, -⟩
        · omega
        · omega
      rw [halloc.entries cluster hrange, if_pos ⟨rfl, hchain⟩]
    · rw [halloc.entries c hc, if_neg hlast, if_neg hother]
  · exact ⟨⟨fun _ c hlow hc hfree => hnone c ⟨hlow, hc, hfree⟩, fun _ => rfl⟩, absurd rfl⟩

/-- The chain of cluster 2 on the tiny volume is extended by cluster 3. -/
theorem extendchain_allocates_behind :
    ∃ fs' r, fatExtendchain tiny (tinyFs [0xf8, 0xff, 0xff, 0xff, 0x0f]) 2 = some (fs', r) ∧
      (r ≠ 0 → ∃ new : Nat, r = new ∧ entry tiny fs' 2 = new) := by
  have hlast : LastCluster tiny (tinyFs [0xf8, 0xff, 0xff, 0xff, 0x0f]) 2 :=
    ⟨by decide, by decide, by decide +kernel⟩
  obtain ⟨fs', r, hcall, -, halloc⟩ := extendchain_allocates (fun _ => tiny_area)
    (tinyFs_cacheOk [0xf8, 0xff, 0xff, 0xff, 0x0f]) (.inr hlast)
  refine ⟨fs', r, hcall, fun hr => ?_⟩
  obtain ⟨new, hnew, -, -, -, -, hlink, -⟩ := halloc hr
  exact ⟨new, hnew, hlink (by decide)⟩

/-- `fat_removechain` ends whatever the FAT holds. For the clusters of a chain it sets their entries to
zero and no others, and raises a known number of free clusters by theirs as far as it goes. -/
theorem removechain_removes (area : DataArea v) (ok : CacheOk v fs) {fuel : Nat}
    (hfuel : v.nclusters + 2 ≤ fuel) :
    (∀ cluster, ∃ fs' r, fatRemovechain v fuel fs cluster = some (fs', r)) ∧
      ∀ cluster chain, chain.Nodup → Chained v fs cluster chain →
        ∃ fs', fatRemovechain v fuel fs cluster = some (fs', 0) ∧
          (∀ c < v.nclusters + 2, entry v fs' c = if c ∈ chain then 0 else entry v fs c) ∧
          (fs.fsifreecount < 0xffffffff →
            fs'.fsifreecount = min (fs.fsifreecount + chain.length) 0xffffffff) := by
  have hused : used v fs ≤ v.nclusters := List.countP_le_length.trans_eq List.length_range
  refine ⟨fun cluster => ?_, fun cluster chain hnodup hchain => ?_⟩
  · obtain ⟨fs', hrun⟩ := removechain_stops area fuel fs cluster ok (by omega)
    exact ⟨fs', 0, hrun⟩
  · have hlength : chain.length ≤ v.nclusters := by
      have hsub : chain ⊆ List.range v.nclusters := fun c hc => List.mem_range.mpr (hchain.lt c hc)
      exact (List.subperm_of_subset hnodup hsub).length_le.trans_eq List.length_range
    obtain ⟨fs', hrun, hfreed⟩ := removechain_frees area chain fs cluster fuel ok hnodup hchain (by omega)
    refine ⟨fs', hrun, hfreed.entries, fun hknown => ?_⟩
    rw [hfreed.freecount, raised_iterate _ hknown.le]

/-- The tiny volume with no free cluster counted. -/
def countedFs (fat : List UInt8) : Fs := { tinyFs fat with fsifreecount := 0 }

theorem countedFs_cacheOk (fat : List UInt8) : CacheOk tiny (countedFs fat) :=
  have h := tinyFs_cacheOk fat
  ⟨h.clean, h.dirty, h.copies⟩

/-- The clusters 2 and 3, with an end mark. -/
theorem removechain_removes_two :
    ∃ fs', fatRemovechain tiny 6 (countedFs [0xf8, 0xff, 0xff, 0x03, 0xf0, 0xff]) 2 = some (fs', 0) ∧
      fs'.fsifreecount = 2 := by
  have hfirst : entry tiny (countedFs [0xf8, 0xff, 0xff, 0x03, 0xf0, 0xff]) 2 = 3 := by
    decide +kernel
  have hlast : tiny.nclusters ≤ entry tiny (countedFs [0xf8, 0xff, 0xff, 0x03, 0xf0, 0xff]) 3 := by
    decide +kernel
  have hchain : Chained tiny (countedFs [0xf8, 0xff, 0xff, 0x03, 0xf0, 0xff]) 2 [2, 3] := by
    simp only [Chained, hfirst]
    exact ⟨trivial, by decide, by decide, trivial, by decide, by decide, hlast⟩
  obtain ⟨fs', hrun, -, hcount⟩ := (removechain_removes tiny_area (countedFs_cacheOk _) le_rfl).2 2
    [2, 3] (by decide) hchain
  exact ⟨fs', hrun, hcount (by decide)⟩

/-- The chain of the clusters 2 and 4: the cluster 4 is one of the volume and stays in use. -/
theorem removechain_stops_early :
    fatCheckbootrecord 512 7 0 tinyRecord = some tiny ∧
      entry tiny (countedFs [0xf8, 0xff, 0xff, 0x04, 0x00, 0x00, 0xff, 0x0f]) 2 = 4 ∧
      entry tiny (countedFs [0xf8, 0xff, 0xff, 0x04, 0x00, 0x00, 0xff, 0x0f]) 4 = 0xfff ∧
      (fatRemovechain tiny 6 (countedFs [0xf8, 0xff, 0xff, 0x04, 0x00, 0x00, 0xff, 0x0f]) 2).map
        (fun r => (entry tiny r.1 2, entry tiny r.1 4, r.1.fsifreecount, r.2)) =
          some (0, 0xfff, 1, 0) := by
  decide +kernel

end NbLot.Guarantees.FatAllocation
