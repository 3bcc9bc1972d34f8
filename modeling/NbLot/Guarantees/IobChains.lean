import NbLot.Source.Iob.Chain

/-!
# The data of I/O buffer chains

`iob_concat` adds the length of the second chain to the buffer it links it to, which is the head of the
first chain only if that has one buffer. `iob_clone` copies the data and sets the length of no buffer, so
that the clone holds nothing (`concat_iff_clone_empty`).
-/
namespace NbLot.Guarantees.IobChains

open List Source.Iob

variable {bufsize : Nat} {chain1 chain2 pool copy : List IobS} {iob2 : IobS}

theorem ne_nil (h : WellFormed bufsize chain1) : chain1 ≠ [] := by
  rintro rfl
  cases h.pktlen

theorem concat_iff (h1 : WellFormed bufsize chain1) (h2 : WellFormed bufsize chain2)
    (hsum : (bytes chain1).length + (bytes chain2).length < 2 ^ 16) :
    bytes (iobConcat chain1 chain2) = bytes chain1 ++ bytes chain2 ∧
      (WellFormed bufsize (iobConcat chain1 chain2) ↔ chain1.length = 1 ∨ bytes chain2 = []) := by
  obtain ⟨iob2, rest, rfl⟩ := exists_cons_of_ne_nil (ne_nil h2)
  obtain rfl | ⟨init, iob1, rfl⟩ := eq_nil_or_concat' chain1
  · exact absurd rfl (ne_nil h1)
  have hpktlen1 := h1.pktlen
  have hpktlen2 := h2.pktlen
  have hfits1 := h1.fits
  have hfits2 := h2.fits
  have hconcat : iobConcat (init ++ [iob1]) (iob2 :: rest) = init ++
      { iob1 with ioPktlen := (iob1.ioPktlen + iob2.ioPktlen) % 2 ^ 16 } :: iob2 :: rest := by
    simp [iobConcat]
  have hbytes : bytes (iobConcat (init ++ [iob1]) (iob2 :: rest)) =
      bytes (init ++ [iob1]) ++ bytes (iob2 :: rest) := by simp [hconcat, bytes]
  have hwf : WellFormed bufsize (iobConcat (init ++ [iob1]) (iob2 :: rest)) ↔
      (iobConcat (init ++ [iob1]) (iob2 :: rest)).head?.map IobS.ioPktlen =
        some ((bytes (init ++ [iob1])).length + (bytes (iob2 :: rest)).length) := by
    rw [← length_append, ← hbytes]
    refine ⟨fun h => h.pktlen, fun h => ⟨h, ?_⟩⟩
    simp only [hconcat, forall_mem_append, forall_mem_cons] at hfits1 hfits2 ⊢
    exact ⟨hfits1.1, hfits1.2.1, hfits2⟩
  refine ⟨hbytes, hwf.trans ?_⟩
  rw [hconcat]
  simp only [head?_cons, Option.map_some, Option.some.injEq] at hpktlen2
  cases init with
  | nil =>
    simp only [nil_append, head?_cons, Option.map_some, Option.some.injEq] at hpktlen1 hsum
    simp only [nil_append, head?_cons, Option.map_some, hpktlen1, hpktlen2, Nat.mod_eq_of_lt hsum,
      length_singleton, true_or]
  | cons iob init =>
    simp only [cons_append, head?_cons, Option.map_some, Option.some.injEq] at hpktlen1
    simp [hpktlen1]

theorem clone_empty (h : WellFormed bufsize chain1) (hbytes : bytes chain1 ≠ []) (hempty : iob2.ioLen = 0)
    (hrun : iobClone bufsize chain1 iob2 pool = some copy) :
    bytes copy = [] ∧ ¬WellFormed bufsize copy := by
  unfold iobClone at hrun
  split at hrun
  · cases hrun
  · obtain ⟨hlens, hpktlen⟩ := cloneLoop_empty hrun hempty
    have hnone : bytes copy = [] := by
      simp only [bytes, flatMap_eq_nil_iff]
      intro iob hiob
      simp [Source.Iob.segment, hlens iob hiob]
    refine ⟨hnone, fun hcopy => hbytes ?_⟩
    have hlen := hcopy.pktlen
    have hlen1 := h.pktlen
    rw [hpktlen, hnone] at hlen
    obtain ⟨iob1, rest, rfl⟩ := exists_cons_of_ne_nil (ne_nil h)
    simp only [head?_cons, headD_cons, Option.map_some, Option.some.injEq] at hlen hlen1
    exact length_eq_zero_iff.mp (hlen1.symm.trans hlen)

/-- When the data of the chains is kept. -/
theorem concat_iff_clone_empty (h1 : WellFormed bufsize chain1) (h2 : WellFormed bufsize chain2)
    (hsum : (bytes chain1).length + (bytes chain2).length < 2 ^ 16) (hempty : iob2.ioLen = 0) :
    bytes (iobConcat chain1 chain2) = bytes chain1 ++ bytes chain2 ∧
      (WellFormed bufsize (iobConcat chain1 chain2) ↔ chain1.length = 1 ∨ bytes chain2 = []) ∧
      (bytes chain1 ≠ [] → ∀ copy, iobClone bufsize chain1 iob2 pool = some copy →
        bytes copy = [] ∧ ¬WellFormed bufsize copy) :=
  have hconcat := concat_iff h1 h2 hsum
  ⟨hconcat.1, hconcat.2, fun hbytes _ => clone_empty h1 hbytes hempty⟩

/-- A buffer with one byte. -/
def one (byte : UInt8) (pktlen : Nat) : IobS := ⟨1, 0, pktlen, fun _ => byte⟩

theorem one_wellFormed (byte : UInt8) : WellFormed 4 [one byte 1] :=
  ⟨rfl, by simp [one]⟩

theorem concat_iff_clone_empty_one :
    WellFormed 4 (iobConcat [one 1 1] [one 2 1]) ∧ bytes (iobConcat [one 1 1] [one 2 1]) = [1, 2] := by
  obtain ⟨hbytes, hwf, -⟩ := @concat_iff_clone_empty _ _ _ [] ⟨0, 0, 0, fun _ => 0⟩
    (one_wellFormed 1) (one_wellFormed 2) (by decide) rfl
  exact ⟨hwf.mpr (.inl rfl), hbytes⟩

/-- A first chain of two buffers keeps its length, and a clone has no bytes. -/
theorem concat_clone_wrong : WellFormed 4 [one 1 2, one 2 0] ∧
    ¬WellFormed 4 (iobConcat [one 1 2, one 2 0] [one 3 1]) ∧
    (iobClone 4 [one 1 1] ⟨0, 0, 0, fun _ => 0⟩ []).map bytes = some [] := by
  refine ⟨⟨rfl, by simp [one]⟩, fun h => ?_, by decide⟩
  exact absurd h.pktlen (by decide)

end NbLot.Guarantees.IobChains
