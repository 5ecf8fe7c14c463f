import ChipEight.Proofs.Checked.Safety
import ChipEight.Proofs.Faults

/-!
Loading an image.  An image goes into the memory as a whole or not at all.  It goes in where it
starts in the program area and ends inside the memory, both read as exact numbers: an offset at
the far end of the numbers a host can name does not come around to the memory again, and where
the image fits, its offset is an address.  `load_all_or_nothing` says that then the image stands
there, byte for byte and word for word, and that all else is as it was.
-/

namespace ChipEight

namespace Memory

def Fits (offset length : Nat) : Prop :=
  programBase ≤ offset ∧ offset + length ≤ size

/-- The memory `n` has the image at the offset and is elsewhere as the memory `m`. -/
structure Takes (m : Memory) (offset : Nat) (image : List UInt8) (n : Memory) : Prop where
  written : ∀ k (hk : k < image.length), n.get (offset + k) = image[k]
  kept : ∀ a, a < offset ∨ offset + image.length ≤ a → n.get a = m.get a

variable {m n : Memory} {offset : Nat} {image : List UInt8} {f : Fault}

theorem load_of_fits (h : Fits offset image.length) :
    m.load offset image = .ok (m.overwrite offset image) := by
  rw [load, if_neg (Nat.not_lt_of_le h.1), if_neg (Nat.not_lt_of_le h.2)]

theorem load_of_not_fits (h : ¬ Fits offset image.length) :
    m.load offset image =
      .error (if offset < programBase then .protectedWrite offset
        else .loadOverflow offset image.length) := by
  rw [load]
  by_cases hbase : offset < programBase
  · rw [if_pos hbase, if_pos hbase]
  · have hend : size < offset + image.length := by
      by_contra hle
      exact h ⟨Nat.le_of_not_lt hbase, Nat.le_of_not_lt hle⟩
    rw [if_neg hbase, if_neg hbase, if_pos hend]

theorem takes_overwrite (m : Memory) (h : offset + image.length ≤ size) :
    m.Takes offset image (m.overwrite offset image) where
  written _ hk := get_overwrite_inside m hk h
  kept _ ha := get_overwrite_of_outside m ha

theorem Takes.word (h : m.Takes offset image n) (hend : offset + image.length ≤ size) {k : Nat}
    (hk : k + 1 < image.length) :
    ∃ w, n.word (offset + k) = .ok w ∧
      w.toNat = 256 * image[k].toNat + image[k + 1].toNat := by
  have hinside : ¬ size ≤ offset + k + 1 := by omega
  have hfirst : n.get (offset + k) = image[k] := h.written k (Nat.lt_of_succ_lt hk)
  have hsecond : n.get (offset + k + 1) = image[k + 1] := h.written (k + 1) hk
  refine ⟨_, by rw [word_eq, if_neg hinside, hfirst, hsecond], ?_⟩
  have hhigh := image[k].toNat_lt
  have hlow := image[k + 1].toNat_lt
  rw [UInt16.toNat_ofNat']
  omega

end Memory

namespace Machine

/-- A load on words of fixed width, where the end of the image must be a word of 64 bits and its
offset is cut to 16, is a load on exact numbers and never traps.  It succeeds exactly if the
image fits, and then answers its length: the image stands in the memory, the program counter
points to its start, and nothing else has changed.  A load that fails changes nothing; its fault
names the offset alone where that lies below the program area, however long the image is, and
otherwise the offset and the length. -/
theorem load_all_or_nothing (m : Machine) (image : List UInt8) (offset : Nat) :
    m.load? image offset = some (m.load image offset) ∧
    ((∃ length, (m.load image offset).answer = .ok length) ↔
      Memory.Fits offset image.length) ∧
    (∀ length, (m.load image offset).answer = .ok length →
      length = image.length ∧
      ∃ memory, (m.load image offset).machine = { m with memory := memory, pc := offset } ∧
        m.memory.Takes offset image memory ∧
        ∀ k (hk : k + 1 < image.length), ∃ w, memory.word (offset + k) = .ok w ∧
          w.toNat = 256 * image[k].toNat + image[k + 1].toNat) ∧
    ∀ f, (m.load image offset).answer = .error f →
      (m.load image offset).machine = m ∧
        f = if offset < Memory.programBase then .protectedWrite offset
          else .loadOverflow offset image.length := by
  refine ⟨load?_eq m image offset, ?_⟩
  by_cases hfits : Memory.Fits offset image.length
  case pos =>
    have hload : m.load image offset =
        ⟨{ m with memory := m.memory.overwrite offset image, pc := offset }, .ok image.length⟩ := by
      rw [load, Memory.load_of_fits hfits]
    have htakes := m.memory.takes_overwrite hfits.2
    rw [hload]
    refine ⟨iff_of_true ⟨_, rfl⟩ hfits, fun length hlength => ?_, fun f hf => ?_⟩
    · exact ⟨(Except.ok.inj hlength).symm, _, rfl, htakes, fun k hk => htakes.word hfits.2 hk⟩
    · cases hf
  case neg =>
    have hload : m.load image offset =
        ⟨m, .error (if offset < Memory.programBase then .protectedWrite offset
          else .loadOverflow offset image.length)⟩ := by
      rw [load, Memory.load_of_not_fits hfits]
    rw [hload]
    refine ⟨iff_of_false ?_ hfits, fun length hlength => ?_, fun f hf => ?_⟩
    · rintro ⟨length, hlength⟩
      cases hlength
    · cases hlength
    · exact ⟨rfl, (Except.error.inj hf).symm⟩

/-- Two bytes go into the last two cells.  One byte at the largest number of 64 bits has its end
at zero when that number comes around, and is refused. -/
theorem load_all_or_nothing_brimming :
    let m := fresh (RandomSource.ofWords [])
    (m.load [0xDE, 0xAD] 0xFFE).answer = .ok 2 ∧
      (∃ memory, (m.load [0xDE, 0xAD] 0xFFE).machine = { m with memory := memory, pc := 0xFFE } ∧
        m.memory.Takes 0xFFE [0xDE, 0xAD] memory ∧ memory.word 0xFFE = .ok 0xDEAD) ∧
      (m.load [] 0x1000).answer = .ok 0 ∧
      (m.load [0xDE] (2 ^ 64 - 1)).answer = .error (.loadOverflow (2 ^ 64 - 1) 1) ∧
      (m.load [0xDE] (2 ^ 64 - 1)).machine = m := by
  intro m
  have hfull : (m.load [0xDE, 0xAD] 0xFFE).answer = .ok 2 := by decide +kernel
  have hpast : (m.load [0xDE] (2 ^ 64 - 1)).answer = .error (.loadOverflow (2 ^ 64 - 1) 1) := by
    decide +kernel
  have hempty : ∃ length, (m.load [] 0x1000).answer = .ok length :=
    (load_all_or_nothing m [] 0x1000).2.1.2 ⟨by decide, by decide⟩
  obtain ⟨-, memory, hmachine, htakes, hword⟩ :=
    (load_all_or_nothing m [0xDE, 0xAD] 0xFFE).2.2.1 2 hfull
  obtain ⟨w, hw, hvalue⟩ := hword 0 (by decide)
  obtain rfl : w = 0xDEAD := UInt16.toNat_inj.1 hvalue
  obtain ⟨length, hlength⟩ := hempty
  obtain ⟨rfl, -⟩ := (load_all_or_nothing m [] 0x1000).2.2.1 length hlength
  exact ⟨hfull, ⟨memory, hmachine, htakes, hw⟩, hlength, hpast,
    ((load_all_or_nothing m [0xDE] (2 ^ 64 - 1)).2.2.2 _ hpast).1⟩

end Machine

end ChipEight
