import GpuPipe.Library.Hex

/-!
# Names of shared-memory objects

The Linux formats of `sys.rs`, `ring.rs` and `store.rs`, as ASCII bytes. A ring's
name is at most 51 bytes, so a spill record, which carries one name and a length,
always fits the 32-bit length field of a ring record.
-/

namespace GpuPipe.Sys

/-- `owner_tag`: the pid-namespace inode and the pid, joined by a dot. -/
def ownerTag (ns pid : ℕ) : Bytes := hex ns ++ ascii "." ++ hex pid

theorem zero_lt_word : 0 < 2 ^ 64 := Nat.two_pow_pos 64

theorem zero_lt_half : 0 < 2 ^ 32 := Nat.two_pow_pos 32

/-- What `unique_name` reads: the namespace, the pid, its counter and the clock. -/
structure Creator where
  ns : ℕ
  pid : ℕ
  n : ℕ
  nanos : ℕ
  ns_lt : ns < 2 ^ 64
  pid_lt : pid < 2 ^ 32
  n_lt : n < 2 ^ 64

/-- `unique_name`: tag, owner, a per-process counter and sixteen bits of the clock. -/
def uniqueName (tag : String) (creator : Creator) : Bytes :=
  ascii "/" ++ ascii tag ++ ownerTag creator.ns creator.pid ++ ascii "_" ++ hex creator.n ++
    ascii "_" ++ hex (creator.nanos % 2 ^ 16)

/-- `spill_object_name`: the ring's name, the writer's pid and its own counter. -/
def spillObjectName (ring : Bytes) (pid n : ℕ) : Bytes :=
  ring ++ ascii "s" ++ hex pid ++ ascii "_" ++ hex n

/-- The file name `file_spill_write` makes inside the ring's spill directory. -/
def fileSpillName (pid n : ℕ) : Bytes := hex pid ++ ascii "_" ++ hex n

/-- `seg_name`: the store's name, `d` or `r`, and the segment id. -/
def segName (base : Bytes) (id : ℕ) (dedicated : Bool) : Bytes :=
  base ++ ascii (if dedicated then "d" else "r") ++ hex id

theorem fileSpillName_inj {pid pid' n n' : ℕ}
    (h : fileSpillName pid n = fileSpillName pid' n') : pid = pid' ∧ n = n' := by
  have hsplit (pid n : ℕ) : fileSpillName pid n = hex pid ++ underscore :: hex n := by
    simp only [fileSpillName, List.append_assoc]
    rfl
  rw [hsplit, hsplit] at h
  obtain ⟨hpid, hn⟩ := hex_underscore_inj h
  exact ⟨hpid, hex_injective hn⟩

theorem uniqueName_length_le (creator : Creator) : (uniqueName "gpq" creator).length ≤ 51 := by
  have hns : (hex creator.ns).length ≤ 16 := hex_length_le (by decide) (creator.ns_lt.trans_le (by decide))
  have hpid : (hex creator.pid).length ≤ 8 := hex_length_le (by decide) (creator.pid_lt.trans_le (by decide))
  have hn : (hex creator.n).length ≤ 16 := hex_length_le (by decide) (creator.n_lt.trans_le (by decide))
  have hnanos : (hex (creator.nanos % 2 ^ 16)).length ≤ 4 :=
    hex_length_le (by decide) (Nat.mod_lt _ (by decide))
  simp only [uniqueName, ownerTag, List.length_append, show (ascii "/").length = 1 from rfl,
    show (ascii "gpq").length = 3 from rfl, show (ascii ".").length = 1 from rfl,
    show (ascii "_").length = 1 from rfl]
  omega

theorem spillObjectName_length_le {ring : Bytes} {pid n : ℕ} (hpid : pid < 2 ^ 32)
    (hn : n < 2 ^ 64) : (spillObjectName ring pid n).length ≤ ring.length + 26 := by
  have hpid' : (hex pid).length ≤ 8 := hex_length_le (by decide) (by omega)
  have hn' : (hex n).length ≤ 16 := hex_length_le (by decide) (by omega)
  simp only [spillObjectName, List.length_append, show (ascii "s").length = 1 from rfl,
    show (ascii "_").length = 1 from rfl]
  omega

theorem fileSpillName_length_le {pid n : ℕ} (hpid : pid < 2 ^ 32) (hn : n < 2 ^ 64) :
    (fileSpillName pid n).length ≤ 25 := by
  have hpid' : (hex pid).length ≤ 8 := hex_length_le (by decide) (by omega)
  have hn' : (hex n).length ≤ 16 := hex_length_le (by decide) (by omega)
  simp only [fileSpillName, List.length_append, show (ascii "_").length = 1 from rfl]
  omega

end GpuPipe.Sys
