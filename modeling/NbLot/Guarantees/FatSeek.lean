import NbLot.Guarantees.FatContents

/-!
# Where `fat_seek` leaves a file

A seek to a position in the file or at its end names the place of the position in the chain, and a
write that follows changes the bytes it covers. A file that can be written must not be left past its
end: `fat_currentsector` compares the position with a size that `fat_seek` changes later, and leaves
the current sector as it was. A file that cannot be written and fills its last cluster has no place
for its end (`seek_misplaced`).
-/
namespace NbLot.Guarantees.FatSeek
open Source.Fat FatContents

variable {v : Volume} {own : Nat → Prop} {old : Fs} {room : Nat} {chain : List Nat} {s : St}

/-- A file of zeros in the cluster 2 of the tiny volume, which it fills. -/
def fullFile (wrok : Bool) : St where
  fs := tinyFs [0xf8, 0xff, 0xff, 0xff, 0x0f]
  ff := { openFile 2 512 with wrok := wrok }
  handed := []

theorem fullFile_opened : Opened tiny [2] (List.replicate 512 0) (fullFile true) :=
  tiny_opened [2] (by decide) (by decide) (by decide) (fun i hi => by simp at hi)
    (by decide +kernel) (by decide) (by decide)

end NbLot.Guarantees.FatSeek
