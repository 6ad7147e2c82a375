import StrawOS.Lib.Endian

/-!
# A flat 64-bit address space

Memory is a function of 64-bit addresses, which wrap around.  A write covers the
addresses that follow its own; after a row of writes each address holds the byte of
the last one that covers it.  `shift` moves the origin: a program that computes its
addresses by adding one bias does the same in the shifted memory without it.
-/

namespace AddrSpace

/-- The bytes of memory. -/
abbrev Mem := UInt64 → UInt8

/-- Bytes to be put at an address and the addresses that follow it. -/
structure Write where
  addr : UInt64
  bytes : List UInt8
  deriving DecidableEq

/-- The byte a write puts at an address, if it covers the address. -/
def Write.byte? (w : Write) (x : UInt64) : Option UInt8 := w.bytes[(x - w.addr).toNat]?

def store (mem : Mem) (w : Write) : Mem := fun x => (w.byte? x).getD (mem x)

def storeAll (mem : Mem) (writes : List Write) : Mem := writes.foldl store mem

/-- The byte an address gets from the last of the writes that cover it. -/
def lastByte? (writes : List Write) (x : UInt64) : Option UInt8 :=
  writes.reverse.findSome? fun w => w.byte? x

/-- The memory seen from an origin moved by `b`. -/
def shift (b : UInt64) (mem : Mem) : Mem := fun v => mem (v + b)

/-- The same write `b` addresses further up. -/
def Write.up (b : UInt64) (w : Write) : Write := ⟨w.addr + b, w.bytes⟩

def load (mem : Mem) (a : UInt64) (n : Nat) : List UInt8 :=
  (List.range n).map fun i => mem (a + .ofNat i)

def load16 (mem : Mem) (a : UInt64) : UInt16 := .ofNat (Endian.load (load mem a 2))

def load64 (mem : Mem) (a : UInt64) : UInt64 := .ofNat (Endian.load (load mem a 8))

/-- The write of a 64-bit word. -/
def word64 (a v : UInt64) : Write := ⟨a, Endian.store 8 v.toNat⟩

/-! ## Rows of writes -/

variable {mem : Mem} {b x : UInt64} {w : Write} {ws vs : List Write}

@[simp] theorem storeAll_nil : storeAll mem [] = mem := rfl

@[simp] theorem storeAll_cons : storeAll mem (w :: ws) = storeAll (store mem w) ws := rfl

theorem storeAll_append : storeAll mem (ws ++ vs) = storeAll (storeAll mem ws) vs := by
  simp [storeAll]

theorem lastByte?_cons : lastByte? (w :: ws) x = (lastByte? ws x).or (w.byte? x) := by
  simp [lastByte?, List.findSome?_append]

/-- **The last write that covers an address decides what is there.** -/
theorem storeAll_apply : storeAll mem ws x = (lastByte? ws x).getD (mem x) := by
  induction ws generalizing mem with
  | nil => rfl
  | cons w ws ih =>
    rw [storeAll_cons, ih, lastByte?_cons]
    cases lastByte? ws x with
    | none => rfl
    | some byte => rfl

/-! ## Moving the origin -/

theorem shift_store : shift b (store mem (w.up b)) = store (shift b mem) w := by
  funext v
  have hsub : v + b - (w.addr + b) = v - w.addr := by grind
  simp only [shift, store, Write.byte?, Write.up, hsub]

theorem shift_storeAll : shift b (storeAll mem (ws.map (Write.up b))) = storeAll (shift b mem) ws := by
  induction ws generalizing mem with
  | nil => rfl
  | cons w ws ih => rw [List.map_cons, storeAll_cons, storeAll_cons, ih, shift_store]

theorem load_shift {a : UInt64} {n : Nat} : load (shift b mem) a n = load mem (a + b) n := by
  apply List.map_congr_left
  intro i _
  have hadd : a + .ofNat i + b = a + b + .ofNat i := by grind
  rw [shift, hadd]

@[simp] theorem load16_shift {a : UInt64} : load16 (shift b mem) a = load16 mem (a + b) := by
  rw [load16, load16, load_shift]

@[simp] theorem load64_shift {a : UInt64} : load64 (shift b mem) a = load64 mem (a + b) := by
  rw [load64, load64, load_shift]

/-! ## Ranges -/

/-- The `n` addresses from `a` on lie among the `m` addresses from `base` on. -/
def Within (base : UInt64) (m : Nat) (a : UInt64) (n : Nat) : Prop :=
  n = 0 ∨ (a - base).toNat + n ≤ m

instance {base : UInt64} {m : Nat} {a : UInt64} {n : Nat} : Decidable (Within base m a n) :=
  inferInstanceAs (Decidable (_ ∨ _))

end AddrSpace
