import PsplinkUsb.Library.Gather

namespace PsplinkUsb.RemoteJoy.HalfFrame

open PsplinkUsb.Library.Gather

/-- The buffer, the two pointers as counts of pixels, and the pixels that were read, each with
the one that it was stored in. -/
structure Reducing (Pixel : Type*) where
  buf : ℕ → Pixel
  addr : ℕ := 0
  addrout : ℕ := 0
  moves : List (ℕ × ℕ) := []

variable {Pixel : Type*} {frame : ℕ → Pixel} {s : Reducing Pixel} {x y : ℕ}

namespace Reducing

/-- `*addrout++ = *addr; addr += 2` -/
def move (s : Reducing Pixel) : Reducing Pixel where
  buf := Function.update s.buf s.addrout (s.buf s.addr)
  addr := s.addr + 2
  addrout := s.addrout + 1
  moves := s.moves ++ [(s.addr, s.addrout)]

@[simp] theorem move_addr (s : Reducing Pixel) : s.move.addr = s.addr + 2 := rfl

def row (s : Reducing Pixel) (x : ℕ) : Reducing Pixel :=
  if x > 0 then s.move.row (x - 2) else s
termination_by x

def rows (s : Reducing Pixel) (y : ℕ) : Reducing Pixel :=
  if y > 0 then
    let s := s.row 480
    { s with addr := s.addr + 480 }.rows (y - 2)
  else s
termination_by y

end Reducing

def reduce (frame : ℕ → Pixel) : Reducing Pixel := { buf := frame : Reducing Pixel }.rows 272

def reduce16bpp (addr : ℕ → BitVec 16) : Reducing (BitVec 16) := reduce addr

def reduce32bpp (addr : ℕ → BitVec 32) : Reducing (BitVec 32) := reduce addr

/-- The pixel that the `k`th of the half frame is. -/
def source (k : ℕ) : ℕ := 2 * (k / 240) * 480 + 2 * (k % 240)

theorem le_source (k : ℕ) : k ≤ source k := by
  have hk := Nat.div_add_mod k 240
  rw [source]
  omega

theorem source_at (hx : x < 240) : source (y * 240 + x) = 2 * y * 480 + 2 * x := by
  rw [source]
  have hdiv : (y * 240 + x) / 240 = y := by omega
  have hmod : (y * 240 + x) % 240 = x := by omega
  rw [hdiv, hmod]

/-- `k` pixels of the half frame are there, and no more was written. -/
structure Reduced (frame : ℕ → Pixel) (k : ℕ) (s : Reducing Pixel) : Prop where
  buf : s.buf = gathered source frame k
  addrout : s.addrout = k
  moves : s.moves = (List.range k).map fun i => (source i, i)

theorem Reduced.start (frame : ℕ → Pixel) : Reduced frame 0 { buf := frame } := ⟨rfl, rfl, rfl⟩

theorem Reduced.move {k : ℕ} (h : Reduced frame k s) (haddr : s.addr = source k) :
    Reduced frame (k + 1) s.move := by
  constructor
  · rw [Reducing.move, h.buf, h.addrout, haddr]
    exact update_gathered (le_source k)
  · rw [Reducing.move, h.addrout]
  · rw [Reducing.move, h.moves, h.addrout, haddr, List.range_succ, List.map_append,
      List.map_singleton]

theorem Reduced.row (n : ℕ) (h : Reduced frame (y * 240 + x) s) (haddr : s.addr = 2 * y * 480 + 2 * x)
    (hx : x + n = 240) : Reduced frame ((y + 1) * 240) (s.row (2 * n)) ∧
      (s.row (2 * n)).addr = 2 * y * 480 + 480 := by
  induction n generalizing s x with
  | zero =>
      obtain rfl : x = 240 := hx
      rw [Reducing.row, if_neg (Nat.lt_irrefl 0), Nat.succ_mul]
      exact ⟨h, haddr⟩
  | succ n ih =>
      have hnext : 2 * (n + 1) - 2 = 2 * n := by omega
      rw [Reducing.row, if_pos (by omega), hnext]
      apply ih (x := x + 1)
      · exact h.move (haddr.trans (source_at (by omega)).symm)
      · rw [Reducing.move_addr, haddr, Nat.mul_succ 2, Nat.add_assoc]
      · omega

theorem Reduced.rows (n : ℕ) (h : Reduced frame (y * 240) s) (haddr : s.addr = 2 * y * 480) :
    Reduced frame ((y + n) * 240) (s.rows (2 * n)) := by
  induction n generalizing s y with
  | zero =>
      rw [Reducing.rows, if_neg (Nat.lt_irrefl 0)]
      exact h
  | succ n ih =>
      rw [← Nat.add_zero (y * 240)] at h
      rw [← Nat.add_zero (2 * y * 480), ← Nat.mul_zero 2] at haddr
      obtain ⟨hrow, hbehind⟩ := h.row 240 haddr (Nat.zero_add 240)
      have hnext : 2 * (n + 1) - 2 = 2 * n := by omega
      rw [Reducing.rows, if_pos (by omega), hnext, ← Nat.succ_add_eq_add_succ]
      apply ih
      · exact ⟨hrow.buf, hrow.addrout, hrow.moves⟩
      · dsimp only
        rw [hbehind]
        omega

theorem reduced_reduce (frame : ℕ → Pixel) : Reduced frame (136 * 240) (reduce frame) := by
  have hrows := (Reduced.start frame).rows (y := 0) 136 rfl
  rwa [Nat.zero_add] at hrows

/-- The frame that is left behind is the half of the one before, no pixel is read from outside
of it, and none that was stored there before. -/
structure Halves (reduce : (ℕ → Pixel) → Reducing Pixel) : Prop where
  pixel : ∀ frame x y, x < 240 → y < 136 →
    (reduce frame).buf (y * 240 + x) = frame (2 * y * 480 + 2 * x)
  inside : ∀ frame, ∀ m ∈ (reduce frame).moves, m.1 < 480 * 272
  unwritten : ∀ frame, (reduce frame).moves.Pairwise fun earlier later => earlier.2 ≠ later.1

theorem halves_reduce : Halves (reduce : (ℕ → Pixel) → Reducing Pixel) := by
  constructor
  · intro frame x y hx hy
    rw [(reduced_reduce frame).buf, gathered_of_lt (by omega), source_at hx]
  · intro frame m hm
    rw [(reduced_reduce frame).moves] at hm
    obtain ⟨k, hk, rfl⟩ := List.mem_map.mp hm
    rw [List.mem_range] at hk
    dsimp only
    rw [source]
    omega
  · intro frame
    rw [(reduced_reduce frame).moves]
    exact pairwise_range le_source _

/-- The halves of a frame of either depth. -/
theorem halves : Halves reduce16bpp ∧ Halves reduce32bpp := ⟨halves_reduce, halves_reduce⟩

end PsplinkUsb.RemoteJoy.HalfFrame
