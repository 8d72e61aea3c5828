/-!
# Runs of bytes

A byte array of equal bytes, and what a single write does to an array: the
size stays, the byte written reads back, and every other byte stays.
-/

namespace KernelMemory.Bytes

def replicate (n : Nat) (byte : UInt8) : ByteArray :=
  Nat.fold n (fun _ _ bytes => bytes.push byte) (ByteArray.emptyWithCapacity n)

theorem data_replicate (n : Nat) (byte : UInt8) :
    (replicate n byte).data = Array.replicate n byte := by
  suffices h : ∀ (m : Nat) (start : ByteArray), start.data = #[] →
      (Nat.fold m (fun _ _ bytes => bytes.push byte) start).data = Array.replicate m byte from
    h n _ rfl
  intro m start hstart
  induction m with
  | zero => simp [hstart]
  | succ m ih => rw [Nat.fold_succ, ByteArray.data_push, ih, Array.replicate_succ]

theorem size_replicate (n : Nat) (byte : UInt8) :
    (replicate n byte).size = n := by
  change (replicate n byte).data.size = n
  rw [data_replicate, Array.size_replicate]

theorem size_set
    (bytes : ByteArray) (k : Nat) (byte : UInt8) (h : k < bytes.size) :
    (bytes.set k byte h).size = bytes.size := by
  change (bytes.set k byte h).data.size = bytes.data.size
  rw [ByteArray.data_set, Array.size_set]

theorem getElem_set
    (bytes : ByteArray) (k : Nat) (byte : UInt8) (h : k < bytes.size)
    (j : Nat) (hset : j < (bytes.set k byte h).size) (hj : j < bytes.size) :
    (bytes.set k byte h)[j] = if k = j then byte else bytes[j] := by
  simp only [ByteArray.getElem_eq_getElem_data, ByteArray.data_set, Array.getElem_set]

end KernelMemory.Bytes
