import PsplinkUsb.Library.CString

namespace PsplinkUsb.Library.Printing

open PsplinkUsb.Library.CString

/-- A buffer, and how many bytes from its start on have been stored to. -/
structure Page where
  buf : Buffer
  used : ℕ

namespace Page

def store (page : Page) (i : ℕ) (b : UInt8) : Page :=
  ⟨Function.update page.buf i b, max page.used (i + 1)⟩

def storeAll (page : Page) (i : ℕ) : List UInt8 → Page
  | [] => page
  | b :: s => (page.store i b).storeAll (i + 1) s

end Page

/-- `sprintf` of a text, which a zero byte ends. It returns the length of the text. -/
def sprintf (output : ℕ) (s : List UInt8) (page : Page) : ℕ × Page :=
  (s.length, page.storeAll output (s ++ [0]))

abbrev Printer := ℕ → Page → ℕ × Page

/-- `sprintf` the text, and go on behind it. -/
def put (s : List UInt8) : Printer := fun output page =>
  let (len, page) := sprintf output s page
  (output + len, page)

/-- `*output++ = c`. -/
def putChar (c : UInt8) : Printer := fun output page => (output + 1, page.store output c)

/-- Nothing is printed. -/
def keep : Printer := fun output page => (output, page)

def Printer.andThen (p q : Printer) : Printer := fun output page =>
  let (output, page) := p output page
  q output page

/-- From one page to the next nothing changed but the text at a place and what stands behind. -/
structure Wrote (page page' : Page) (output : ℕ) (s : List UInt8) : Prop where
  holds : Holds page'.buf output s
  keeps : ∀ i < output, page'.buf i = page.buf i
  used : page'.used ≤ max page.used (output + s.length + 1)

/-- A printer that returns the place behind its text. -/
structure Prints (p : Printer) (s : List UInt8) : Prop where
  next : ∀ output page, (p output page).1 = output + s.length
  wrote : ∀ output page, Wrote page (p output page).2 output s

/-- A printer that returns a place behind the end of the string it leaves. -/
structure Leaves (p : Printer) (s : List UInt8) : Prop where
  next : ∀ output page, output + s.length < (p output page).1
  holds : ∀ output page, Holds (p output page).2.buf output (s ++ [0])
  keeps : ∀ output page, ∀ i < output, (p output page).2.buf i = page.buf i

variable {p q : Printer} {page page' page'' : Page} {output : ℕ} {s t : List UInt8}

theorem holds_congr {buf buf' : Buffer} (h : ∀ i < output + s.length, buf' i = buf i)
    (hholds : Holds buf output s) : Holds buf' output s := by
  intro i hi
  rw [h _ (Nat.add_lt_add_left hi output)]
  exact hholds i hi

theorem Page.store_of_lt {b : UInt8} {i j : ℕ} (h : i < j) :
    (page.store j b).buf i = page.buf i := Function.update_of_ne (Nat.ne_of_lt h) _ _

theorem Page.storeAll_of_lt {i j : ℕ} (h : i < j) : (page.storeAll j s).buf i = page.buf i := by
  induction s generalizing page j with
  | nil => rfl
  | cons b s ih => rw [storeAll, ih (Nat.lt_succ_of_lt h), store_of_lt h]

theorem Page.holds_storeAll : Holds (page.storeAll output s).buf output s := by
  induction s generalizing page output with
  | nil => exact holds_nil
  | cons b s ih =>
      refine holds_cons.mpr ⟨?_, ih⟩
      rw [storeAll, storeAll_of_lt (Nat.lt_succ_self output)]
      exact Function.update_self ..

theorem Page.used_storeAll : (page.storeAll output s).used ≤ max page.used (output + s.length) := by
  induction s generalizing page output with
  | nil => exact Nat.le_max_left _ _
  | cons b s ih =>
      have hrest := @ih (page.store output b) (output + 1)
      rw [storeAll, List.length_cons]
      simp only [store] at hrest ⊢
      omega

theorem Page.wrote_storeAll : Wrote page (page.storeAll output (s ++ [0])) output s where
  holds := (holds_append.mp holds_storeAll).1
  keeps := fun _ hi => storeAll_of_lt hi
  used := by
    have hused := @used_storeAll page output (s ++ [0])
    rwa [List.length_append, List.length_singleton, ← Nat.add_assoc] at hused

theorem Wrote.trans (h : Wrote page page' output s)
    (h' : Wrote page' page'' (output + s.length) t) : Wrote page page'' output (s ++ t) where
  holds := holds_append.mpr ⟨holds_congr h'.keeps h.holds, h'.holds⟩
  keeps := by
    intro i hi
    rw [h'.keeps i (Nat.lt_add_right _ hi), h.keeps i hi]
  used := by
    have hfirst := h.used
    have hsecond := h'.used
    rw [List.length_append]
    omega

theorem prints_put (s : List UInt8) : Prints (put s) s where
  next := fun _ _ => rfl
  wrote := fun _ _ => Page.wrote_storeAll

theorem prints_putChar (c : UInt8) : Prints (putChar c) [c] where
  next := fun _ _ => rfl
  wrote := by
    intro output page
    refine ⟨holds_cons.mpr ⟨Function.update_self .., holds_nil⟩, fun i hi => Page.store_of_lt hi, ?_⟩
    show max page.used (output + 1) ≤ max page.used (output + 1 + 1)
    omega

theorem prints_keep : Prints keep [] where
  next := fun _ _ => rfl
  wrote := fun _ _ => ⟨holds_nil, fun _ _ => rfl, Nat.le_max_left _ _⟩

theorem Prints.andThen (hp : Prints p s) (hq : Prints q t) : Prints (p.andThen q) (s ++ t) where
  next := by
    intro output page
    show (q (p output page).1 (p output page).2).1 = output + (s ++ t).length
    rw [hq.next, hp.next, List.length_append, Nat.add_assoc]
  wrote := by
    intro output page
    have hsecond := hq.wrote (p output page).1 (p output page).2
    rw [hp.next] at hsecond
    show Wrote page (q (p output page).1 (p output page).2).2 output (s ++ t)
    rw [hp.next]
    exact (hp.wrote output page).trans hsecond

theorem Prints.andThen_leaves (hp : Prints p s) (hq : Leaves q t) :
    Leaves (p.andThen q) (s ++ t) where
  next := by
    intro output page
    have hnext := hq.next (p output page).1 (p output page).2
    rw [hp.next] at hnext
    show output + (s ++ t).length < (q (p output page).1 (p output page).2).1
    rw [hp.next, List.length_append]
    omega
  holds := by
    intro output page
    have hholds := hq.holds (p output page).1 (p output page).2
    have hkeeps := hq.keeps (p output page).1 (p output page).2
    show Holds (q (p output page).1 (p output page).2).2.buf output (s ++ t ++ [0])
    rw [hp.next] at hholds hkeeps ⊢
    rw [List.append_assoc]
    exact holds_append.mpr ⟨holds_congr hkeeps (hp.wrote output page).holds, hholds⟩
  keeps := by
    intro output page i hi
    have hkeeps := hq.keeps (p output page).1 (p output page).2 i
    show (q (p output page).1 (p output page).2).2.buf i = page.buf i
    rw [hp.next] at hkeeps ⊢
    rw [hkeeps (Nat.lt_add_right _ hi), (hp.wrote output page).keeps i hi]

/-- `*output = 0` behind all. -/
def finished (p : Printer) (page : Page) : Page :=
  let (output, page) := p 0 page
  page.store output 0

theorem Prints.finished (hp : Prints p s) (page : Page) :
    Holds (Printing.finished p page).buf 0 (s ++ [0]) ∧
      (Printing.finished p page).used ≤ max page.used (s.length + 1) := by
  have hwrote := hp.wrote 0 page
  have hnext := hp.next 0 page
  rw [Nat.zero_add] at hnext
  have hused := hwrote.used
  rw [Nat.zero_add] at hused
  show Holds (Page.store (p 0 page).2 (p 0 page).1 0).buf 0 (s ++ [0]) ∧
    (Page.store (p 0 page).2 (p 0 page).1 0).used ≤ max page.used (s.length + 1)
  rw [hnext]
  constructor
  · have hstore := hwrote.holds.store 0
    rwa [Nat.zero_add] at hstore
  · simp only [Page.store]
    omega

theorem Leaves.finished (hp : Leaves p s) (page : Page) :
    Holds (Printing.finished p page).buf 0 (s ++ [0]) := by
  have hnext := hp.next 0 page
  refine holds_congr (fun i hi => ?_) (hp.holds 0 page)
  rw [List.length_append, List.length_singleton] at hi
  exact Page.store_of_lt (by omega)

end PsplinkUsb.Library.Printing
